import Bindery.Proofs.Sources

/-!
# Files that are added

Files that are added to a checkout leave the others as they are. Of a folder the same is read then as
before, unless one of them lies there and has the ending that is looked for.
-/

namespace Bindery

open Checkout

namespace Checkout

variable {before after checkout : Checkout} {folder location : Location}

theorem folderAt_eq_ok_iff {path : Path} (hne : path.location ≠ []) :
    checkout.folderAt path = .ok path.location ↔ checkout.isFolder path.location := by
  have hempty : ¬ path.isEmpty := fun hempty => hne (Path.location_eq_nil_of_isEmpty hempty)
  rw [folderAt, if_neg hempty, obstacle?]
  cases hfolder : checkout.isFolder path.location with
  | true => simp
  | false =>
      cases checkout.isFile path.location <;> simp

theorem isFolder_of_isFile {names : Location} (h : checkout.isFile (folder ++ names))
    (hne : names ≠ []) : checkout.isFolder folder := by
  by_contra hnot
  have hsame := (isFolder_eq_false_iff.mp (Bool.not_eq_true _ ▸ hnot)).2.2 _ (isFile_iff.mp h)
    (List.prefix_append _ _)
  exact hne (List.self_eq_append_right.mp hsame)

/-- The name of a file that lies directly in a folder, given the names that lead to it from there. -/
def single? : Location → Option String
  | [name] => some name
  | _ => none

theorem single?_eq_some_iff {names : Location} {name : String} :
    single? names = some name ↔ names = [name] := by
  unfold single?
  split <;> simp_all

theorem fileNames_eq_filterMap (checkout : Checkout) (folder : Location) :
    checkout.fileNames folder =
      ((checkout.files.map Prod.fst).filterMap (relative? folder)).filterMap single? := by
  rw [← below_eq_filterMap]
  rfl

/-- The files of a kind in a folder are the same when none of the kind is added. -/
theorem filter_fileNames_of_append {added : List (Location × Content)} {keep : String → Bool}
    (h : after.files = before.files ++ added)
    (hnone : ∀ name, folder ++ [name] ∈ added.map Prod.fst → ¬ keep name) :
    (after.fileNames folder).filter keep = (before.fileNames folder).filter keep := by
  have hadded : (((added.map Prod.fst).filterMap (relative? folder)).filterMap single?).filter keep = [] := by
    rw [List.filter_eq_nil_iff]
    intro name hname
    obtain ⟨names, hnames, hsingle⟩ := List.mem_filterMap.mp hname
    obtain ⟨file, hfile, hrelative⟩ := List.mem_filterMap.mp hnames
    obtain rfl := single?_eq_some_iff.mp hsingle
    obtain ⟨-, rfl⟩ := relative?_eq_some_iff.mp hrelative
    exact hnone name hfile
  rw [fileNames_eq_filterMap, fileNames_eq_filterMap, h, List.map_append, List.filterMap_append,
    List.filterMap_append, List.filter_append, hadded, List.append_nil]

/-- What was a file holds what it held when others are added. -/
theorem content?_of_append {added : List (Location × Content)} (h : after.files = before.files ++ added)
    (hfile : before.isFile location) : after.content? location = before.content? location := by
  obtain ⟨content, hcontent⟩ := Option.isSome_iff_exists.mp hfile
  rw [hcontent, content?, h, List.lookup_append, Option.or_eq_some_iff]
  exact Or.inl hcontent

theorem below_eq_nil (h : ¬ before.isFolder folder) : before.below folder = [] := by
  rw [List.eq_nil_iff_forall_not_mem]
  intro names hnames
  obtain ⟨hne, hfile⟩ := mem_below_iff.mp hnames
  exact h (isFolder_of_isFile (isFile_iff.mpr hfile) hne)

end Checkout

namespace Sources

variable {before after : Checkout} {root : Path} {folder ending : String}

theorem fileNames_of_isFolder {checkout : Checkout} (hne : (root.join folder).location ≠ [])
    (h : checkout.isFolder (root.join folder).location) :
    fileNames ⟨checkout, root⟩ folder ending =
      .ok (((checkout.fileNames (root.join folder).location).filter fun name =>
        ending.toList.isSuffixOf name.toList).mergeSort (· ≤ ·)) := by
  simp only [fileNames, (folderAt_eq_ok_iff hne).mpr h]

theorem hasFolder_iff {checkout : Checkout} (hne : (root.join folder).location ≠ []) :
    hasFolder ⟨checkout, root⟩ folder ↔ checkout.isFolder (root.join folder).location := by
  rw [← folderAt_eq_ok_iff hne, hasFolder]
  split
  next location hlocation => simp [hlocation, folderAt_eq_ok hlocation]
  next failure hfailure => simp [hfailure]

/-- What is read in a folder is the same when files without the ending are added. -/
theorem readFiles_of_append {added : List (Location × Content)}
    (hadded : after.files = before.files ++ added)
    (hne : (root.join folder).location ≠ []) (hfolder : after.isFolder (root.join folder).location)
    (hnone : ∀ name, (root.join folder).location ++ [name] ∈ added.map Prod.fst →
      ¬ ending.toList <:+ name.toList)
    (hlocation : ∀ name, [name] ∈ before.below (root.join folder).location →
      (root.join (folder ++ "/" ++ name)).location = (root.join folder).location ++ [name]) :
    readFiles ⟨after, root⟩ folder ending = readFiles ⟨before, root⟩ folder ending := by
  have hnames : (after.fileNames (root.join folder).location).filter
        (fun name => ending.toList.isSuffixOf name.toList) =
      (before.fileNames (root.join folder).location).filter
        fun name => ending.toList.isSuffixOf name.toList := by
    apply filter_fileNames_of_append hadded
    intro name hname
    rw [List.isSuffixOf_iff_suffix]
    exact hnone name hname
  rw [readFiles, readFiles, if_pos ((hasFolder_iff hne).mpr hfolder),
    fileNames_of_isFolder hne hfolder, hnames]
  by_cases hbefore : before.isFolder (root.join folder).location
  · rw [if_pos ((hasFolder_iff hne).mpr hbefore), ← fileNames_of_isFolder hne hbefore]
    cases hfound : fileNames ⟨before, root⟩ folder ending with
    | error error => rfl
    | ok names =>
        refine mapM_congr_of_mem fun name hname => ?_
        obtain ⟨hbelow, -⟩ := mem_fileNames hfound hname
        have hfile : before.isFile (root.join (folder ++ "/" ++ name)).location := by
          rw [hlocation name hbelow, isFile_iff]
          exact (mem_below_iff.mp hbelow).2
        have hcontent := content?_of_append hadded hfile
        obtain ⟨content, hheld⟩ := Option.isSome_iff_exists.mp hfile
        simp only [read, Checkout.read, readAt, hcontent, hheld]
        cases content <;> rfl
  · rw [if_neg ((hasFolder_iff hne).not.mpr hbefore), Checkout.fileNames, below_eq_nil hbefore,
      List.filterMap_nil, List.filter_nil, List.mergeSort_nil]
    rfl

end Sources

end Bindery
