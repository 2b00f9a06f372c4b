import Bindery.Checkout.Update
import Mathlib.Data.List.Nodup

/-!
# Rewriting a file

A text written to a file that is there replaces what the file holds. The files and folders of the
checkout stay the same, and so does what every other file holds.
-/

namespace Bindery

theorem Path.location_eq_nil_of_isEmpty {path : Path} (h : path.isEmpty) : path.location = [] := by
  obtain ⟨text⟩ := path
  have htext : text = "" := String.isEmpty_iff.mp h
  rw [htext]
  rfl

namespace Checkout

variable {checkout before middle after : Checkout} {folder location names : Location}

/-- The names that lead from a folder to a file below it. -/
def relative? (folder file : Location) : Option Location :=
  if folder.isPrefixOf file && folder ≠ file then some (file.drop folder.length) else none

theorem relative?_eq_some_iff {file : Location} :
    relative? folder file = some names ↔ names ≠ [] ∧ file = folder ++ names := by
  unfold relative?
  constructor
  · intro h
    split at h
    next hbelow =>
      simp only [Bool.and_eq_true, List.isPrefixOf_iff_prefix, decide_eq_true_eq] at hbelow
      obtain ⟨⟨rest, rfl⟩, hne⟩ := hbelow
      rw [List.drop_left, Option.some.injEq] at h
      subst h
      refine ⟨?_, rfl⟩
      rintro rfl
      exact hne (List.append_nil folder).symm
    next => cases h
  · rintro ⟨hne, rfl⟩
    simp [hne]

theorem below_eq_filterMap (checkout : Checkout) (folder : Location) :
    checkout.below folder = (checkout.files.map Prod.fst).filterMap (relative? folder) := by
  rw [List.filterMap_map]
  rfl

/-- The files below a folder lie at the locations that lead on from it. -/
theorem mem_below_iff :
    names ∈ checkout.below folder ↔
      names ≠ [] ∧ folder ++ names ∈ checkout.files.map Prod.fst := by
  simp only [below_eq_filterMap, List.mem_filterMap, relative?_eq_some_iff]
  constructor
  · rintro ⟨file, hmem, hne, rfl⟩
    exact ⟨hne, hmem⟩
  · rintro ⟨hne, hmem⟩
    exact ⟨_, hmem, hne, rfl⟩

/-- No file is listed twice below a folder. -/
theorem nodup_below (checkout : Checkout) (folder : Location) : (checkout.below folder).Nodup := by
  rw [below_eq_filterMap]
  refine checkout.isTree.nodup.filterMap fun file file' names hnames hnames' => ?_
  rw [(relative?_eq_some_iff.mp hnames).2, (relative?_eq_some_iff.mp hnames').2]

/-- Two checkouts have the same files and folders. What the files hold may differ. -/
structure SameTree (before after : Checkout) : Prop where
  files : after.files.map Prod.fst = before.files.map Prod.fst
  folders : after.folders = before.folders

namespace SameTree

theorem refl (checkout : Checkout) : SameTree checkout checkout := ⟨rfl, rfl⟩

theorem trans (h : SameTree before middle) (h' : SameTree middle after) : SameTree before after :=
  ⟨h'.files.trans h.files, h'.folders.trans h.folders⟩

theorem isFile (h : SameTree before after) (location : Location) :
    after.isFile location = before.isFile location := by
  rw [Bool.eq_iff_iff, isFile_iff, isFile_iff, h.files]

theorem isFolder (h : SameTree before after) (location : Location) :
    after.isFolder location = before.isFolder location := by
  rw [← Bool.not_inj_iff, Bool.eq_iff_iff, Bool.not_eq_true', Bool.not_eq_true',
    isFolder_eq_false_iff, isFolder_eq_false_iff, h.files, h.folders]

theorem absence (h : SameTree before after) (location : Location) :
    after.absence location = before.absence location := by
  have habove (checkout : Checkout) : checkout.absence location =
      if (checkout.files.map Prod.fst).any fun file => file.isPrefixOf location && file ≠ location then
        .notFolder
      else .missing := by
    rw [List.any_map]
    rfl
  rw [habove, h.files, ← habove]

theorem folderAt (h : SameTree before after) (path : Path) :
    after.folderAt path = before.folderAt path := by
  simp only [Checkout.folderAt, obstacle?, h.isFolder, h.isFile, h.absence]

theorem below (h : SameTree before after) (folder : Location) :
    after.below folder = before.below folder := by
  rw [below_eq_filterMap, h.files, below_eq_filterMap]

theorem fileNames (h : SameTree before after) (folder : Location) :
    after.fileNames folder = before.fileNames folder := by
  rw [Checkout.fileNames, h.below, Checkout.fileNames]

end SameTree

theorem folderAt_eq_ok {path : Path} (h : checkout.folderAt path = .ok location) :
    location = path.location := by
  unfold folderAt at h
  split at h
  · cases h
  · split at h
    · exact (Except.ok.inj h).symm
    · cases h

theorem content?_eq_none_iff :
    checkout.content? location = none ↔ location ∉ checkout.files.map Prod.fst := by
  rw [← isFile_iff, isFile, Bool.not_eq_true, Option.isSome_eq_false_iff, Option.isNone_iff_eq_none]

theorem mem_files_of_content? {content : Content} (h : checkout.content? location = some content) :
    (location, content) ∈ checkout.files := by
  obtain ⟨front, back, hfiles, -⟩ := List.lookup_eq_some_iff.mp h
  rw [hfiles]
  exact List.mem_append_right front List.mem_cons_self

/-- What holds a text is a file, and so no folder. -/
theorem isFolder_eq_false_of_content? {content : Content}
    (h : checkout.content? location = some content) : checkout.isFolder location = false := by
  have hmem : location ∈ checkout.files.map Prod.fst := by
    rw [← isFile_iff, isFile, h]
    rfl
  refine isFolder_eq_false_iff.mpr ⟨?_, ?_, ?_⟩
  · rintro rfl
    exact checkout.isTree.nil_not_mem hmem
  · exact checkout.isTree.not_prefix_folder location hmem
  · exact checkout.isTree.eq_of_prefix location hmem

/-- A file is read exactly if it holds a text. -/
theorem read_eq_ok_iff {path : Path} {text : String} :
    checkout.read path = .ok text ↔ checkout.content? path.location = some (.text text) := by
  unfold read
  -- the empty path leads to the top folder, where no file is
  split
  next hempty =>
    have hnone : checkout.content? path.location = none := by
      rw [content?_eq_none_iff, Path.location_eq_nil_of_isEmpty hempty]
      exact checkout.isTree.nil_not_mem
    simp [hnone]
  next =>
    unfold readAt
    split <;> simp [*]

/-- What a file holds after the content of one file was replaced. -/
theorem content?_replace (checkout : Checkout) (location other : Location) (content : Content) :
    (checkout.replace location content).content? other =
      if other = location then (checkout.content? other).map fun _ => content
      else checkout.content? other := by
  simp only [content?, replace]
  induction checkout.files with
  | nil => simp
  | cons entry rest ih =>
      obtain ⟨file, old⟩ := entry
      simp only [List.map_cons, List.lookup_cons]
      by_cases hfile : other = file
      · subst hfile
        by_cases hlocation : other = location <;> simp [hlocation]
      · have hne : (other == file) = false := beq_false_of_ne hfile
        simpa only [hne] using ih

/-- Lists with the same keys are the same when nothing else is found for any key. -/
theorem eq_of_lookup_eq {α β : Type} [BEq α] [LawfulBEq α] {first second : List (α × β)}
    (hkeys : first.map Prod.fst = second.map Prod.fst) (hnodup : (first.map Prod.fst).Nodup)
    (hlookup : ∀ key, first.lookup key = second.lookup key) : first = second := by
  induction first generalizing second with
  | nil => exact (List.map_eq_nil_iff.mp hkeys.symm).symm
  | cons entry rest ih =>
      obtain ⟨key, value⟩ := entry
      obtain ⟨entry', rest', rfl, hkey, hrest⟩ := List.map_eq_cons_iff.mp hkeys.symm
      obtain ⟨key', value'⟩ := entry'
      obtain ⟨hnot, hdistinct⟩ := List.nodup_cons.mp hnodup
      obtain rfl : key' = key := hkey
      have hvalue := hlookup key'
      simp only [List.lookup_cons, beq_self_eq_true, Option.some.injEq] at hvalue
      rw [hvalue, ih hrest.symm hdistinct]
      intro other
      by_cases hsame : other = key'
      -- the key of the first entry does not come again
      · have hnone (list : List (α × β)) (hlist : list.map Prod.fst = rest.map Prod.fst) :
            list.lookup other = none := by
          rw [List.lookup_eq_none_iff]
          intro entry hentry
          apply bne_iff_ne.mpr
          intro heq
          apply hnot
          rw [← hlist, ← hsame, heq]
          exact List.mem_map.mpr ⟨entry, hentry, rfl⟩
        rw [hnone rest rfl, hnone rest' hrest]
      · have hother := hlookup other
        have hne : (other == key') = false := beq_false_of_ne hsame
        simpa only [List.lookup_cons, hne] using hother

/-- One file was rewritten: it holds the text now, and nothing else has changed. -/
structure Rewritten (before : Checkout) (location : Location) (text : String) (after : Checkout) :
    Prop where
  sameTree : SameTree before after
  content : after.content? location = some (.text text)
  frame : ∀ other, other ≠ location → after.content? other = before.content? other

/-- Checkouts with the same files and folders are the same when their files hold the same. -/
theorem eq_of_sameTree (h : SameTree before after)
    (hcontent : ∀ location, after.content? location = before.content? location) : after = before := by
  have hfiles : after.files = before.files := by
    apply eq_of_lookup_eq h.files
    · rw [h.files]
      exact before.isTree.nodup
    · exact hcontent
  have hfolders := h.folders
  cases before
  cases after
  simp only at hfiles hfolders
  subst hfiles hfolders
  rfl

theorem Rewritten.unique {text : String} (h : Rewritten before location text middle)
    (h' : Rewritten before location text after) : after = middle := by
  apply eq_of_sameTree
  · exact ⟨h'.sameTree.files.trans h.sameTree.files.symm,
      h'.sameTree.folders.trans h.sameTree.folders.symm⟩
  · intro other
    by_cases hsame : other = location
    · rw [hsame, h.content, h'.content]
    · rw [h.frame other hsame, h'.frame other hsame]

theorem rewritten_replace {old : Content} (hold : checkout.content? location = some old)
    (text : String) : Rewritten checkout location text (checkout.replace location (.text text)) := by
  refine ⟨⟨?_, rfl⟩, ?_, ?_⟩
  · simp only [replace, List.map_map]
    rfl
  · rw [content?_replace, if_pos rfl, hold]
    rfl
  · intro other hne
    rw [content?_replace, if_neg hne]

/-- A text is always written to a file that is there, in place of what the file holds. -/
theorem write_eq_ok {path : Path} {old : Content} (hold : checkout.content? path.location = some old)
    (text : String) : checkout.write path text = .ok (checkout.replace path.location (.text text)) := by
  have hfile : checkout.isFile path.location := by rw [isFile, hold, Option.isSome_some]
  have hempty : ¬ path.isEmpty := by
    intro hempty
    rw [Path.location_eq_nil_of_isEmpty hempty, isFile_iff] at hfile
    exact checkout.isTree.nil_not_mem hfile
  rw [write, if_neg hempty, writeAt, isFolder_eq_false_of_content? hold, if_neg Bool.false_ne_true,
    hfile, Bool.true_or, if_pos rfl, set, if_pos hfile]

end Checkout

end Bindery
