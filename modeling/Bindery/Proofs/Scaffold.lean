import Bindery.Proofs.Leading
import Bindery.Proofs.Markers
import Bindery.Proofs.ReadBack
import Bindery.Proofs.Words

/-!
# Scaffolds

The search finds the blocks of a scaffold, all of them empty, also behind a renewed header. The scaffold
of a file can be written when no other file and no folder is in the way; files that are not in each
other's way can be written one after the other.
-/

namespace Bindery

open Text

/-- A layout of empty blocks, without an end marker in front of a body. -/
structure Layout.Blank (count : Nat) (layout : Layout) : Prop where
  length : layout.blocks.length = count
  body : ∀ block ∈ layout.blocks, block.body = []
  plain : ∀ block ∈ layout.blocks, block.Plain

namespace Scaffold

/-- What stands around the marker in the lines of a file that hold one. -/
structure Wrapping (path : Path) (before after : List Char) : Prop where
  line : ∀ marker, (markerLine path marker).toList = before ++ marker ++ after ++ ['\n']
  colon : ':' ∉ before ∧ ':' ∉ after
  newline : '\n' ∉ before ∧ '\n' ∉ after
  space : ∃ start, before = start ++ [' ']

theorem exists_wrapping (path : Path) : ∃ before after, Wrapping path before after := by
  by_cases hscript : path.hasExtension ["py", "txt"]
  · refine ⟨['#', ' '], [], ?_, by decide, by decide, ['#'], rfl⟩
    intro marker
    simp [markerLine, hscript]
  · by_cases hproject : path.hasExtension ["csproj"]
    · refine ⟨['<', '!', '-', '-', ' '], [' ', '-', '-', '>'], ?_, by decide, by decide,
        ['<', '!', '-', '-'], rfl⟩
      intro marker
      simp [markerLine, hscript, hproject]
    · refine ⟨['/', '/', ' '], [], ?_, by decide, by decide, ['/', '/'], rfl⟩
      intro marker
      simp [markerLine, hscript, hproject]

/-- The hand-written line in front of a block. -/
def handWritten (index : Nat) : List Char := ("hand-written " ++ toString index ++ "\n").toList

theorem colon_not_mem_handWritten (index : Nat) : ':' ∉ handWritten index := by
  have hnumber : ':' ∉ (toString index).toList := fun hmem => by
    have hnominal := nominal_toString_nat index ':' hmem
    simp [isNominal] at hnominal
  rw [handWritten, String.toList_append, String.toList_append]
  simp only [List.mem_append, hnumber, or_false]
  decide

variable {path : Path} {before after lead : List Char}

/-- A block without lines, behind a text without a marker. -/
def block (before after lead : List Char) (index : Nat) : Block where
  opening := lead ++ handWritten index ++ before ++ (beginMarker ++ after) ++ ['\n']
  body := []
  closing := before ++ endMarker

theorem Wrapping.complete_block (h : Wrapping path before after) (hlead : Block.Unmarked lead)
    (index : Nat) : (block before after lead index).Complete ∧ (block before after lead index).Plain := by
  obtain ⟨start, rfl⟩ := h.space
  have hfront : Block.Unmarked (lead ++ handWritten index ++ (start ++ [' '])) := by
    rw [Block.unmarked_append_right h.colon.1,
      Block.unmarked_append_right (colon_not_mem_handWritten index)]
    exact hlead
  constructor
  · have hbegin : NoneStarts beginMarker (lead ++ handWritten index ++ (start ++ [' ']))
        (beginMarker ++ after) := by
      have hspace : ' ' ∉ beginMarker := by decide
      exact noneStarts_of_getLast? hspace (Or.inr (by simp)) hfront.1
    have hend : NoneStarts endMarker ([] ++ (start ++ [' '])) endMarker := by
      have hspace : ' ' ∉ endMarker := by decide
      have hbefore := Block.unmarked_of_not_mem h.colon.1
      exact noneStarts_of_getLast? hspace (Or.inr (by simp)) hbefore.2
    have hline : '\n' ∉ beginMarker ++ after := by
      simp [newline_not_mem_beginMarker, h.newline.2]
    have hnested : ¬ beginMarker <:+: [] ++ (start ++ [' ']) :=
      (Block.unmarked_of_not_mem h.colon.1).1
    exact .intro _ (beginMarker ++ after) [] (start ++ [' ']) (List.prefix_append _ _) hline hbegin
      (Or.inl rfl) h.newline.1 hend hnested
  · have hopening : (block (start ++ [' ']) after lead index).opening =
        (lead ++ handWritten index ++ start) ++ ' ' :: (beginMarker ++ (after ++ ['\n'])) := by
      simp [block]
    have hstart : Block.Unmarked (lead ++ handWritten index ++ start) :=
      hfront.of_infix ⟨[], [' '], by simp⟩
    have hmarker : endMarker = ":CODEGEN_END".toList ++ [':'] := by decide
    have hafter : ':' ∉ after ++ ['\n'] := by simp [h.colon.2]
    have hspace : ' ' ∉ endMarker := by decide
    rw [Block.Plain, hopening, infix_append_cons_iff hspace, not_or]
    refine ⟨hstart.2, ?_⟩
    have hother : ¬ endMarker <:+: beginMarker := by
      rw [← occurs_iff]
      decide
    rw [hmarker] at hother ⊢
    rwa [infix_append_of_last_not_mem hafter]

/-- Behind a text without a marker, the blocks of a scaffold are found, all of them empty. -/
theorem Wrapping.blank (h : Wrapping path before after) (hlead : Block.Unmarked lead)
    (indices : List Nat) :
    (Layout.ofText (lead ++ (indices.flatMap fun index => (emptyBlock path index).toList)
      ++ "hand-written end\n".toList)).Blank indices.length := by
  induction indices generalizing lead with
  | nil =>
      have hnone : ¬ beginMarker <:+: lead ++ "hand-written end\n".toList :=
        ((Block.unmarked_append_right (by decide)).mpr hlead).1
      have hscan : Block.scan (lead ++ "hand-written end\n".toList) = .nothing := by
        rw [Block.scan, cut?_eq_none_iff.mpr hnone]
      rw [List.flatMap_nil, List.append_nil, Layout.ofText_of_nothing hscan]
      exact ⟨rfl, by simp, by simp⟩
  | cons index rest ih =>
      obtain ⟨hcomplete, hplain⟩ := h.complete_block hlead index
      have hrest : Block.Unmarked (after ++ ['\n']) :=
        Block.unmarked_of_not_mem (by simp [h.colon.2])
      have hscan : Block.scan (lead ++ ((index :: rest).flatMap fun index =>
            (emptyBlock path index).toList) ++ "hand-written end\n".toList) =
          .found (block before after lead index) (after ++ ['\n'] ++ (rest.flatMap fun index =>
            (emptyBlock path index).toList) ++ "hand-written end\n".toList) := by
        refine Block.scan_eq_found_iff.mpr ⟨hcomplete, ?_⟩
        simp only [emptyBlock, h.line, block, Block.text, handWritten, String.toList_append,
          List.flatMap_cons, List.append_assoc, List.nil_append]
      rw [Layout.ofText_of_found hscan]
      have hblank := ih hrest
      exact ⟨congrArg Nat.succ hblank.length, List.forall_mem_cons.mpr ⟨rfl, hblank.body⟩,
        List.forall_mem_cons.mpr ⟨hplain, hblank.plain⟩⟩

theorem toList_text (path : Path) (blocks : Nat) :
    (text path blocks).toList =
      (if path.hasExtension ["h", "cc"] then "/*\n * placeholder\n */\n\n".toList else [])
        ++ ((List.range blocks).flatMap fun index => (emptyBlock path index).toList)
        ++ "hand-written end\n".toList := by
  rw [text, String.toList_append, String.toList_append, toList_join_empty, List.flatMap_map,
    apply_ite String.toList]
  rfl

theorem blank_text (path : Path) (blocks : Nat) : (Layout.ofText (text path blocks).toList).Blank blocks := by
  obtain ⟨before, after, hwrap⟩ := exists_wrapping path
  have hlead : Block.Unmarked
      (if path.hasExtension ["h", "cc"] then "/*\n * placeholder\n */\n\n".toList else []) := by
    split
    · exact Block.unmarked_of_not_mem (by decide)
    · exact Block.unmarked_of_not_mem (by decide)
  have hblank := hwrap.blank hlead (List.range blocks)
  rwa [List.length_range, ← toList_text] at hblank

/-- A scaffold that starts with a comment has its header renewed, and keeps its empty blocks. -/
theorem exists_renew?_text {copyright : String} (hextension : path.hasExtension ["h", "cc"])
    (hcopyright : Block.Unmarked copyright.toList) (blocks : Nat) :
    ∃ renewed, Header.renew? (Header.comment copyright) (text path blocks) = some renewed
      ∧ (Layout.ofText renewed.toList).Blank blocks := by
  obtain ⟨before, after, hwrap⟩ := exists_wrapping path
  let rest := ((List.range blocks).flatMap fun index => (emptyBlock path index).toList)
    ++ "hand-written end\n".toList
  have htext : (text path blocks).toList =
      "/*\n * placeholder\n ".toList ++ Header.closing ++ ("\n\n".toList ++ rest) := by
    rw [toList_text, if_pos hextension]
    simp [rest, Header.closing]
  have hcut : cut? Header.closing (text path blocks).toList =
      some ("/*\n * placeholder\n ".toList, Header.closing ++ ("\n\n".toList ++ rest)) := by
    have hnot : ¬ Header.closing <:+: "/*\n * placeholder\n ".toList := by
      rw [← occurs_iff]
      decide
    rw [htext]
    exact cut?_append_of_getLast? Header.space_not_mem_closing (by decide) hnot _
  have hopening : Header.opening.isPrefixOf (text path blocks).toList := by
    rw [htext]
    rfl
  refine ⟨Header.comment copyright ++ String.ofList (Header.closing ++ ("\n\n".toList ++ rest)),
    ?_, ?_⟩
  · rw [Header.renew?, if_pos hopening, hcut]
    rfl
  · have hcomment : Block.Unmarked (Header.comment copyright).toList :=
      ⟨Header.not_infix_comment (by decide) (by decide) (by decide) (by decide) hcopyright.1,
        Header.not_infix_comment (by decide) (by decide) (by decide) (by decide) hcopyright.2⟩
    have hlead : Block.Unmarked ((Header.comment copyright).toList ++ "*/\n\n".toList) :=
      (Block.unmarked_append_right (by decide)).mpr hcomment
    have hblank := hwrap.blank hlead (List.range blocks)
    rw [List.length_range] at hblank
    simpa [rest, Header.closing] using hblank

end Scaffold

namespace Checkout

variable {checkout : Checkout} {location folder : Location} {locations : List Location}

/-- Files can be written to some locations: none of them is the top or below another one, what is a
file already is left alone, and no other file and no folder is in the way. -/
structure Room (checkout : Checkout) (locations : List Location) : Prop where
  ne_nil : ∀ location ∈ locations, location ≠ []
  named : ∀ location ∈ locations, location.isNamed
  apart : ∀ location ∈ locations, ∀ other ∈ locations, location <+: other → location = other
  files : ∀ location ∈ locations, ∀ file ∈ checkout.files.map Prod.fst,
    file <+: location ∨ location <+: file → file = location
  folders : ∀ location ∈ locations, ∀ folder ∈ checkout.folders, ¬ location <+: folder

theorem not_prefix_dropLast (h : location ≠ []) : ¬ location <+: location.dropLast := by
  intro hleads
  have hlength := hleads.length_le
  have hpos := List.length_pos_of_ne_nil h
  rw [List.length_dropLast] at hlength
  omega

namespace Room

theorem isFolder_eq_false (h : checkout.Room locations) (hmem : location ∈ locations) :
    checkout.isFolder location = false := by
  refine isFolder_eq_false_iff.mpr ⟨h.ne_nil location hmem, h.folders location hmem, ?_⟩
  intro file hfile hleads
  exact (h.files location hmem file hfile (Or.inr hleads)).symm

/-- The folder of a file that can be written can be made. -/
theorem isFree_dropLast (h : checkout.Room locations) (hmem : location ∈ locations) :
    checkout.isFree location.dropLast := by
  have habove : ∀ file ∈ checkout.files.map Prod.fst, ¬ file <+: location.dropLast := by
    intro file hfile hleads
    have heq := h.files location hmem file hfile (Or.inl (hleads.trans (List.dropLast_prefix _)))
    exact not_prefix_dropLast (h.ne_nil location hmem) (heq ▸ hleads)
  have hfile : checkout.isFile location.dropLast = false := by
    rw [← Bool.not_eq_true, isFile_iff]
    exact fun hin => habove _ hin (List.prefix_refl _)
  have hmissing : checkout.absence location.dropLast = .missing :=
    absence_eq_missing_iff.mpr fun file hin hleads => absurd hleads (habove file hin)
  rw [isFree, hfile, hmissing]
  rfl

end Room

/-- What making a folder adds. -/
theorem makeFolder_of_isFree (h : checkout.isFree folder) :
    ∃ after, checkout.makeFolder folder = .ok after ∧ after.files = checkout.files
      ∧ after.isFolder folder ∧ ∀ other ∈ after.folders, other ∈ checkout.folders ∨ other = folder := by
  obtain ⟨hfile, hmissing⟩ : checkout.isFile folder = false ∧ checkout.absence folder = .missing := by
    simpa [isFree] using h
  refine ⟨checkout.addFolder folder, ?_, ?_⟩
  · rw [makeFolder, hfile, if_neg Bool.false_ne_true, hmissing]
  · rw [addFolder, dif_pos h]
    split
    next hfolder => exact ⟨rfl, hfolder, fun other hother => Or.inl hother⟩
    next =>
      refine ⟨rfl, ?_, fun other hother => ?_⟩
      · simp [isFolder]
      · simpa using hother

namespace Room

/-- Making the folder of a file leaves the room as it is. -/
theorem of_folders {after : Checkout} (h : checkout.Room locations) (hmem : location ∈ locations)
    (hfiles : after.files = checkout.files)
    (hfolders : ∀ folder ∈ after.folders, folder ∈ checkout.folders ∨ folder = location.dropLast) :
    after.Room locations := by
  refine ⟨h.ne_nil, h.named, h.apart, ?_, fun other hother folder hin hleads => ?_⟩
  · rw [hfiles]
    exact h.files
  · rcases hfolders folder hin with hold | rfl
    · exact h.folders other hother folder hold hleads
    -- nothing is to be written to a folder on the way to another file
    · have heq := h.apart other hother _ hmem (hleads.trans (List.dropLast_prefix _))
      exact not_prefix_dropLast (h.ne_nil location hmem) (heq ▸ hleads)

theorem isFree (h : checkout.Room locations) (hmem : location ∈ locations)
    (hnew : checkout.isFile location = false) : checkout.isFree location := by
  have hmissing : checkout.absence location = .missing :=
    absence_eq_missing_iff.mpr fun file hin hleads => h.files _ hmem file hin (Or.inl hleads)
  rw [Checkout.isFree, hnew, hmissing]
  rfl

/-- A file that is set where there is room is added, and leaves room for the other ones. -/
theorem set (h : checkout.Room locations) (hmem : location ∈ locations)
    (hnew : checkout.isFile location = false) (content : Content) :
    (checkout.set location content).files = checkout.files ++ [(location, content)]
      ∧ (checkout.set location content).Room locations := by
  obtain ⟨hfiles, hfolders⟩ :
      (checkout.set location content).files = checkout.files ++ [(location, content)]
        ∧ (checkout.set location content).folders = checkout.folders := by
    rw [Checkout.set, hnew, if_neg Bool.false_ne_true,
      dif_pos ⟨h.named _ hmem, h.isFolder_eq_false hmem, h.isFree hmem hnew⟩]
    exact ⟨rfl, rfl⟩
  refine ⟨hfiles, h.ne_nil, h.named, h.apart, ?_, hfolders ▸ h.folders⟩
  intro other hother file hin hcomparable
  rw [hfiles, List.map_append, List.mem_append] at hin
  rcases hin with hold | hwritten
  · exact h.files other hother file hold hcomparable
  · obtain rfl : file = location := by simpa using hwritten
    rcases hcomparable with habove | hbelow
    · exact h.apart _ hmem other hother habove
    · exact (h.apart other hother _ hmem hbelow).symm

/-- A file is written where there is room, and then there is room still. -/
theorem exists_write (h : checkout.Room locations) {path : Path} (hmem : path.location ∈ locations)
    (hnew : checkout.isFile path.location = false) (text : String) :
    ∃ middle after, checkout.makeFolder path.location.dropLast = .ok middle
      ∧ middle.write path text = .ok after ∧ after.Room locations
      ∧ after.files = checkout.files ++ [(path.location, .text text)] := by
  obtain ⟨middle, hmiddle, hfiles, hfolder, hfolders⟩ := makeFolder_of_isFree (h.isFree_dropLast hmem)
  have hroom : middle.Room locations := h.of_folders hmem hfiles hfolders
  have hfile : middle.isFile path.location = false := by
    rw [isFile, content?, hfiles]
    exact hnew
  have hempty : ¬ path.isEmpty := fun hempty =>
    h.ne_nil _ hmem (Path.location_eq_nil_of_isEmpty hempty)
  have hwrite : middle.write path text = .ok (middle.set path.location (.text text)) := by
    rw [write, if_neg hempty, writeAt, hroom.isFolder_eq_false hmem, hfile, hfolder]
    rfl
  obtain ⟨hset, hstill⟩ := hroom.set hmem hfile (.text text)
  exact ⟨middle, _, hmiddle, hwrite, hstill, hfiles ▸ hset⟩

end Room

end Checkout

namespace Scaffold

open Checkout

variable {before middle after : Checkout} {root : Path} {locations : List Location}
  {all edits : List Edit}

/-- The file that is written for an edit: where it lies, and its text. -/
def entry (root : Path) (all : List Edit) (edit : Edit) : Location × Content :=
  ((root.join edit.path.text).location,
    .text (text (root.join edit.path.text) (blocksNeeded all edit)))

/-- What writing scaffolds for edits adds to a checkout. -/
structure Written (root : Path) (all edits : List Edit) (before after : Checkout) : Prop where
  files : ∃ added, after.files = before.files ++ added
    ∧ ∀ file ∈ added, ∃ edit ∈ edits, file = entry root all edit
  covered : ∀ edit ∈ edits, after.isFile (root.join edit.path.text).location

theorem writeFile_run (h : before.Room locations) {file : String}
    (hmem : (root.join file).location ∈ locations)
    (hnew : before.isFile (root.join file).location = false) (blocks : Nat) :
    ∃ after, (writeFile root file blocks).run before = .ok (root.join file) after
      ∧ after.Room locations ∧ after.files = before.files
        ++ [((root.join file).location, .text (text (root.join file) blocks))] := by
  obtain ⟨middle, after, hmiddle, hwrite, hroom, hfiles⟩ := h.exists_write hmem hnew _
  refine ⟨after, ?_, hroom, hfiles⟩
  unfold writeFile
  simp only [Work.run_get_bind, hmiddle]
  rw [EStateM.run_bind, EStateM.run_set]
  simp only [Work.run_get_bind, hwrite]
  rfl

/-- A path is taken, where there is room, exactly if there is a file. -/
theorem isTaken_eq_isFile (h : before.Room locations) {path : Path}
    (hmem : path.location ∈ locations) : isTaken before path = before.isFile path.location := by
  rw [isTaken, h.isFolder_eq_false hmem, Bool.or_false]

/-- One step leaves the file of its edit there, and adds at most this file. -/
theorem exists_writeEdits_cons {edit : Edit} (h : before.Room locations)
    (hmem : (root.join edit.path.text).location ∈ locations) :
    ∃ middle added,
      (writeEdits root all (edit :: edits)).run before = (writeEdits root all edits).run middle
        ∧ middle.Room locations ∧ middle.files = before.files ++ added
        ∧ (∀ file ∈ added, file = entry root all edit)
        ∧ middle.isFile (root.join edit.path.text).location := by
  rw [writeEdits, Work.run_get_bind, isTaken_eq_isFile h hmem]
  cases htaken : before.isFile (root.join edit.path.text).location with
  | true => exact ⟨before, [], rfl, h, by simp, by simp, htaken⟩
  | false =>
      obtain ⟨middle, hwrite, hroom, hfiles⟩ := writeFile_run h hmem htaken (blocksNeeded all edit)
      have hdiscard : (discard (writeFile root edit.path.text (blocksNeeded all edit))).run before =
          .ok () middle := Work.map_eq_ok_iff.mpr ⟨_, hwrite, rfl⟩
      refine ⟨middle, _, ?_, hroom, hfiles, fun file hfile => List.mem_singleton.mp hfile, ?_⟩
      · rw [if_neg Bool.false_ne_true, EStateM.run_bind, hdiscard]
      · rw [isFile_iff, hfiles]
        simp

/-- Where there is room for the files of edits, their scaffolds are written. -/
theorem exists_writeEdits (h : before.Room locations)
    (hmem : ∀ edit ∈ edits, (root.join edit.path.text).location ∈ locations) :
    ∃ after, (writeEdits root all edits).run before = .ok () after
      ∧ Written root all edits before after := by
  induction edits generalizing before with
  | nil => exact ⟨before, rfl, ⟨[], by simp, by simp⟩, by simp⟩
  | cons edit rest ih =>
      obtain ⟨hedit, hrest⟩ := List.forall_mem_cons.mp hmem
      obtain ⟨middle, first, hstep, hroom, hfirst, hadded, hfile⟩ := exists_writeEdits_cons h hedit
      obtain ⟨after, hrun, ⟨others, hothers, hentries⟩, hcovered⟩ := ih hroom hrest
      refine ⟨after, hstep.trans hrun, ⟨first ++ others, ?_, ?_⟩, ?_⟩
      · rw [hothers, hfirst, List.append_assoc]
      · intro file hin
        rcases List.mem_append.mp hin with hin | hin
        · exact ⟨edit, List.mem_cons_self, hadded file hin⟩
        · obtain ⟨other, hother, heq⟩ := hentries file hin
          exact ⟨other, List.mem_cons_of_mem _ hother, heq⟩
      · refine List.forall_mem_cons.mpr ⟨?_, hcovered⟩
        rw [isFile_iff] at hfile ⊢
        rw [hothers, List.map_append]
        exact List.mem_append_left _ hfile

theorem foldl_max_le_iff {numbers : List Nat} {start bound : Nat} :
    numbers.foldl max start ≤ bound ↔ start ≤ bound ∧ ∀ number ∈ numbers, number ≤ bound := by
  induction numbers generalizing start with
  | nil => simp
  | cons number rest ih => simp [ih, and_assoc]

/-- A scaffold has the block of every edit of its file. -/
theorem lt_blocksNeeded {edit other : Edit} (hmem : other ∈ edits) (hsame : other.path = edit.path) :
    other.block < blocksNeeded edits edit := by
  unfold blocksNeeded
  refine (foldl_max_le_iff.mp (Nat.le_refl _)).2 (other.block + 1) (List.mem_map.mpr ⟨other, ?_, rfl⟩)
  exact List.mem_filter.mpr ⟨hmem, decide_eq_true (congrArg Path.parts hsame)⟩

/-- A file that was not there holds the scaffold of an edit. -/
theorem Written.content?_eq (h : Written root all edits before after) {location : Location}
    (hfile : after.isFile location) (hnew : before.isFile location = false) :
    ∃ edit ∈ edits, (root.join edit.path.text).location = location
      ∧ after.content? location =
        some (.text (text (root.join edit.path.text) (blocksNeeded all edit))) := by
  obtain ⟨added, hadded, hentries⟩ := h.files
  obtain ⟨content, hcontent⟩ := Option.isSome_iff_exists.mp hfile
  have hin := mem_files_of_content? hcontent
  rw [hadded, List.mem_append] at hin
  rcases hin with hold | hin
  · have hthere : before.isFile location := isFile_iff.mpr (List.mem_map.mpr ⟨_, hold, rfl⟩)
    rw [hnew] at hthere
    cases hthere
  · obtain ⟨edit, hedit, heq⟩ := hentries _ hin
    obtain ⟨rfl, rfl⟩ := Prod.mk.inj heq
    exact ⟨edit, hedit, rfl, hcontent⟩

end Scaffold

end Bindery
