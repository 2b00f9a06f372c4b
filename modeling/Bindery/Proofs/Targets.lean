import Bindery.Proofs.Edits
import Bindery.Proofs.Outcome
import Bindery.Proofs.Path
import Bindery.Target

/-!
# The files of targets

Each target has a folder of its own, and all files that it owns lie there at locations of their own.
What its emitter yields are edits of these files, and no two edits are for the same block.
-/

namespace Bindery

open Text

namespace Sheet

variable {sheet : Sheet} {sheets : List Sheet} {edits : List Edit}

theorem edits_eq_ok_iff :
    sheet.edits = .ok edits ↔ ∃ blocks, sheet.blocks = .ok blocks ∧
      (blocks.zipIdx sheet.first).map (fun (lines, block) => ⟨⟨sheet.path⟩, block, lines⟩) = edits := by
  rw [Sheet.edits, except_bind_eq_ok_iff]
  simp [pure, Except.pure]

theorem allEdits_cons_eq_ok_iff :
    allEdits (sheet :: sheets) = .ok edits ↔
      ∃ first others, sheet.edits = .ok first ∧ allEdits sheets = .ok others ∧ first ++ others = edits := by
  simp only [allEdits, List.mapM_cons, except_bind_eq_ok_iff]
  constructor
  · rintro ⟨lists, ⟨first, hfirst, rest, hrest, hlists⟩, hedits⟩
    cases hlists
    cases hedits
    exact ⟨first, rest.flatten, hfirst, ⟨rest, hrest, rfl⟩, rfl⟩
  · rintro ⟨first, others, hfirst, ⟨rest, hrest, hothers⟩, rfl⟩
    cases hothers
    exact ⟨first :: rest, ⟨first, hfirst, rest, hrest, rfl⟩, rfl⟩

theorem path_of_mem_edits (h : sheet.edits = .ok edits) {edit : Edit} (hmem : edit ∈ edits) :
    edit.path = ⟨sheet.path⟩ := by
  obtain ⟨blocks, -, rfl⟩ := edits_eq_ok_iff.mp h
  obtain ⟨entry, -, rfl⟩ := List.mem_map.mp hmem
  rfl

/-- The edits of sheets are edits of their files. -/
theorem path_of_mem_allEdits (h : allEdits sheets = .ok edits) {edit : Edit} (hmem : edit ∈ edits) :
    ∃ path ∈ sheets.map Sheet.path, edit.path = ⟨path⟩ := by
  induction sheets generalizing edits with
  | nil =>
      cases h
      cases hmem
  | cons sheet rest ih =>
      obtain ⟨first, others, hfirst, hothers, rfl⟩ := allEdits_cons_eq_ok_iff.mp h
      rcases List.mem_append.mp hmem with hmem | hmem
      · exact ⟨sheet.path, List.mem_cons_self, path_of_mem_edits hfirst hmem⟩
      · obtain ⟨path, hpath, heq⟩ := ih hothers hmem
        exact ⟨path, List.mem_cons_of_mem _ hpath, heq⟩

/-- The edits of sheets are those of each of them. -/
theorem mem_allEdits (h : allEdits sheets = .ok edits) (hsheet : sheet ∈ sheets) {own : List Edit}
    (hown : sheet.edits = .ok own) {edit : Edit} (hmem : edit ∈ own) : edit ∈ edits := by
  induction sheets generalizing edits with
  | nil => cases hsheet
  | cons head rest ih =>
      obtain ⟨first, others, hfirst, hothers, rfl⟩ := allEdits_cons_eq_ok_iff.mp h
      rcases List.mem_cons.mp hsheet with rfl | hsheet
      · obtain rfl := Except.ok.inj (hfirst.symm.trans hown)
        exact List.mem_append_left _ hmem
      · exact List.mem_append_right _ (ih hothers hsheet)

/-- A sheet numbers its blocks one after the other. -/
theorem nodup_blocks (h : sheet.edits = .ok edits) : (edits.map Edit.block).Nodup := by
  obtain ⟨blocks, -, rfl⟩ := edits_eq_ok_iff.mp h
  rw [List.map_map]
  have hnumbers : (blocks.zipIdx sheet.first).map Prod.snd = List.range' sheet.first blocks.length :=
    List.zipIdx_map_snd _ _
  change ((blocks.zipIdx sheet.first).map Prod.snd).Nodup
  rw [hnumbers]
  exact List.nodup_range'

/-- When the files of sheets differ, no block of a file is given lines twice. -/
theorem nodup_blocksAt (h : allEdits sheets = .ok edits) (path : Path)
    (hdistinct : (sheets.map Sheet.path).Pairwise fun file other => ¬ Path.same ⟨file⟩ ⟨other⟩) :
    ((FileEdits.blocksAt path edits).map Prod.fst).Nodup := by
  induction sheets generalizing edits with
  | nil =>
      cases h
      exact List.nodup_nil
  | cons sheet rest ih =>
      obtain ⟨first, others, hfirst, hothers, rfl⟩ := allEdits_cons_eq_ok_iff.mp h
      rw [List.map_cons, List.pairwise_cons] at hdistinct
      obtain ⟨hsheet, hrest⟩ := hdistinct
      have hlast := ih hothers hrest
      rw [FileEdits.blocksAt, List.map_map] at hlast ⊢
      rw [List.filter_append, List.map_append]
      -- the edits of a file come from one sheet only
      by_cases hsame : path.same ⟨sheet.path⟩
      · have hnone : others.filter (fun edit => path.same edit.path) = [] := by
          rw [List.filter_eq_nil_iff]
          intro edit hedit hedit'
          obtain ⟨file, hfile, heq⟩ := path_of_mem_allEdits hothers hedit
          refine hsheet file hfile (Path.same_iff.mpr ?_)
          exact (Path.same_iff.mp hsame).symm.trans (Path.same_iff.mp (heq ▸ hedit'))
        rw [hnone, List.map_nil, List.append_nil]
        exact (List.filter_sublist.map Edit.block).nodup (nodup_blocks hfirst)
      · have hnone : first.filter (fun edit => path.same edit.path) = [] := by
          rw [List.filter_eq_nil_iff]
          intro edit hedit hedit'
          exact hsame (path_of_mem_edits hfirst hedit ▸ hedit')
        rw [hnone, List.map_nil, List.nil_append]
        exact hlast

end Sheet

namespace Target

variable {target other : Target} {file : String} {root : Path}

/-- The folder of a target. -/
def folder : Target → String
  | core => CoreLibrary.folder
  | mock => MockLibrary.folder
  | cpp => CppBindings.folder
  | dotnet => DotnetBindings.folder
  | python => PythonBindings.folder

theorem mem_all (target : Target) : target ∈ all := by
  cases target <;> decide

theorem isFileName_folder (target : Target) : isFileName target.folder := by
  cases target <;> decide

theorem eq_of_folder_eq (h : target.folder = other.folder) : target = other := by
  revert h
  cases target <;> cases other <;> decide

theorem nodup_files (target : Target) : target.emitter.files.Nodup := by
  have h : ∀ target ∈ all, target.emitter.files.Nodup := by decide
  exact h target target.mem_all

theorem headerFolders_cases (target : Target) :
    target.emitter.headerFolders = [] ∨ target.emitter.headerFolders = [target.folder] := by
  cases target
  · exact Or.inr rfl
  · exact Or.inr rfl
  · exact Or.inr rfl
  · exact Or.inl rfl
  · exact Or.inl rfl

/-- The files of a target are written as names that lead on from its folder. Only the last of the names
has a dot. -/
theorem pieces_of_mem_files (h : file ∈ target.emitter.files) :
    (pieces (· = '/') file.toList).head? = some target.folder.toList ∧
      (∀ piece ∈ pieces (· = '/') file.toList,
        piece ≠ [] ∧ piece ≠ ['.'] ∧ piece ≠ ['.', '.'] ∧ '/' ∉ piece) ∧
      ((pieces (· = '/') file.toList).getLast?.map fun piece => piece.count '.') = some 1 ∧
      ∀ piece ∈ (pieces (· = '/') file.toList).dropLast, piece.count '.' = 0 := by
  have hall : ∀ target ∈ all, ∀ file ∈ target.emitter.files,
      (pieces (· = '/') file.toList).head? = some target.folder.toList ∧
        (∀ piece ∈ pieces (· = '/') file.toList,
          piece ≠ [] ∧ piece ≠ ['.'] ∧ piece ≠ ['.', '.'] ∧ '/' ∉ piece) ∧
        ((pieces (· = '/') file.toList).getLast?.map fun piece => piece.count '.') = some 1 ∧
        ∀ piece ∈ (pieces (· = '/') file.toList).dropLast, piece.count '.' = 0 := by
    decide +kernel
  exact hall target target.mem_all file h

theorem all_isFileName_of_mem_files (h : file ∈ target.emitter.files) :
    (Path.names file).all isFileName := by
  rw [List.all_eq_true]
  intro name hname
  obtain ⟨piece, hpiece, rfl⟩ := List.mem_map.mp hname
  rw [isFileName_iff, String.toList_ofList]
  exact (pieces_of_mem_files h).2.1 piece hpiece

theorem exists_names_eq (h : file ∈ target.emitter.files) :
    ∃ rest, Path.names file = target.folder :: rest := by
  obtain ⟨rest, hrest⟩ := List.head?_eq_some_iff.mp (pieces_of_mem_files h).1
  refine ⟨rest.map String.ofList, ?_⟩
  rw [Path.names, hrest, List.map_cons, String.ofList_toList]

/-- In the location of a file of a target, the name of the file has a dot and the others have none. -/
theorem exists_folders_name (h : file ∈ target.emitter.files) :
    ∃ folders name, Path.names file = folders ++ [name] ∧ name.toList.count '.' = 1
      ∧ ∀ folder ∈ folders, folder.toList.count '.' = 0 := by
  obtain ⟨-, -, hlast, hfolders⟩ := pieces_of_mem_files h
  obtain ⟨piece, hpiece, hcount⟩ := Option.map_eq_some_iff.mp hlast
  obtain ⟨front, hpieces⟩ := List.getLast?_eq_some_iff.mp hpiece
  rw [hpieces, List.dropLast_concat] at hfolders
  refine ⟨front.map String.ofList, String.ofList piece, ?_, ?_, ?_⟩
  · rw [Path.names, hpieces, List.map_append, List.map_singleton]
  · rwa [String.toList_ofList]
  · intro folder hfolder
    obtain ⟨other, hother, rfl⟩ := List.mem_map.mp hfolder
    rw [String.toList_ofList]
    exact hfolders other hother

theorem location_of_mem_files (h : file ∈ target.emitter.files) :
    (root.join file).location = root.location ++ Path.names file :=
  Path.location_join_of_names root (all_isFileName_of_mem_files h)

theorem location_folder (target : Target) (root : Path) :
    (root.join target.folder).location = root.location ++ [target.folder] := by
  have hnames : [target.folder].all isFileName := by simpa using target.isFileName_folder
  have hjoin := Path.location_join_names root hnames
  rwa [Text.join, String.intercalate_singleton] at hjoin

/-- Different files of a target lie at different locations. -/
theorem eq_of_location_eq (root : Path) {file' : String} (h : file ∈ target.emitter.files)
    (h' : file' ∈ target.emitter.files)
    (heq : (root.join file).location = (root.join file').location) : file = file' := by
  rw [location_of_mem_files h, location_of_mem_files h', List.append_cancel_left_eq] at heq
  exact Path.eq_of_names_eq heq

theorem eq_of_same {file' : String} (h : file ∈ target.emitter.files)
    (h' : file' ∈ target.emitter.files) (hsame : Path.same ⟨file⟩ ⟨file'⟩) : file = file' := by
  have hjoin (file : String) : Path.join ⟨""⟩ file = ⟨file⟩ := by simp [Path.join]
  refine eq_of_location_eq ⟨""⟩ h h' ?_
  rw [hjoin, hjoin, Path.location, Path.same_iff.mp hsame, Path.location]

theorem pairwise_files (target : Target) :
    target.emitter.files.Pairwise fun file other => ¬ Path.same ⟨file⟩ ⟨other⟩ :=
  target.nodup_files.imp_of_mem fun h h' hne hsame => hne (eq_of_same h h' hsame)

/-- The emitter of a target yields the edits of a sheet for each of its files. -/
theorem exists_sheets_of_emit_eq_ok {interface : Interface} {sources : Sources} {edits : List Edit}
    (h : target.emitter.emit interface sources = .ok edits) :
    ∃ sheets, Sheet.allEdits sheets = .ok edits ∧ sheets.map Sheet.path = target.emitter.files := by
  cases target with
  | core =>
      obtain ⟨schemas, -, h⟩ := except_bind_eq_ok_iff.mp h
      exact ⟨_, h, rfl⟩
  | mock =>
      obtain ⟨defaults, -, h⟩ := except_bind_eq_ok_iff.mp h
      exact ⟨_, h, rfl⟩
  | cpp =>
      obtain ⟨headers, -, h⟩ := except_bind_eq_ok_iff.mp h
      exact ⟨_, h, rfl⟩
  | dotnet => exact ⟨_, h, rfl⟩
  | python => exact ⟨_, h, rfl⟩

end Target

end Bindery
