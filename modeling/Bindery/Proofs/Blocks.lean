import Bindery.Proofs.Targets

/-!
# Lines of blocks

The lines that the emitter of a target gives to a block of a file are those that the sheet of the file
has for the block.
-/

namespace Bindery

/-- The lines that edits give to a block of a file, or none when they leave it out. -/
def linesOf (edits : List Edit) (file : String) (block : Nat) : List String :=
  ((FileEdits.blocksAt ⟨file⟩ edits).lookup block).getD []

namespace Sheet

variable {sheet : Sheet} {sheets : List Sheet} {edits : List Edit}

/-- The edits of a file are those of its sheet, when no other sheet is for the file. -/
theorem blocksAt_of_mem (h : allEdits sheets = .ok edits)
    (hdistinct : (sheets.map Sheet.path).Pairwise fun file other => ¬ Path.same ⟨file⟩ ⟨other⟩)
    (hmem : sheet ∈ sheets) :
    ∃ own, sheet.edits = .ok own ∧
      FileEdits.blocksAt ⟨sheet.path⟩ edits = own.map fun edit => (edit.block, edit.lines) := by
  induction sheets generalizing edits with
  | nil => cases hmem
  | cons head rest ih =>
      obtain ⟨first, others, hfirst, hothers, rfl⟩ := allEdits_cons_eq_ok_iff.mp h
      rw [List.map_cons, List.pairwise_cons] at hdistinct
      obtain ⟨hhead, hrest⟩ := hdistinct
      rcases List.mem_cons.mp hmem with rfl | hmem
      · refine ⟨first, hfirst, ?_⟩
        have hall : first.filter (fun edit => Path.same ⟨sheet.path⟩ edit.path) = first := by
          rw [List.filter_eq_self]
          intro edit hedit
          rw [path_of_mem_edits hfirst hedit]
          exact Path.same_iff.mpr rfl
        have hnone : others.filter (fun edit => Path.same ⟨sheet.path⟩ edit.path) = [] := by
          rw [List.filter_eq_nil_iff]
          intro edit hedit hsame
          obtain ⟨file, hfile, heq⟩ := path_of_mem_allEdits hothers hedit
          exact hhead file hfile (heq ▸ hsame)
        rw [FileEdits.blocksAt, List.filter_append, hall, hnone, List.append_nil]
      · obtain ⟨own, hown, hblocks⟩ := ih hothers hrest hmem
        refine ⟨own, hown, ?_⟩
        have hnone : first.filter (fun edit => Path.same ⟨sheet.path⟩ edit.path) = [] := by
          rw [List.filter_eq_nil_iff]
          intro edit hedit hsame
          rw [path_of_mem_edits hfirst hedit] at hsame
          refine hhead sheet.path (List.mem_map_of_mem hmem) (Path.same_iff.mpr ?_)
          exact (Path.same_iff.mp hsame).symm
        rw [FileEdits.blocksAt, List.filter_append, hnone, List.nil_append]
        exact hblocks

theorem lookup_zipIdx (blocks : List (List String)) (first block : Nat) :
    ((blocks.zipIdx first).map fun entry => (entry.2, entry.1)).lookup (first + block)
      = blocks[block]? := by
  induction blocks generalizing first block with
  | nil => rfl
  | cons lines rest ih =>
      rw [List.zipIdx_cons, List.map_cons, List.lookup_cons]
      cases block with
      | zero => simp
      | succ block =>
          have hne : (first + (block + 1) == first) = false := by
            rw [beq_eq_false_iff_ne]
            omega
          have hnext : first + (block + 1) = first + 1 + block := by omega
          simp only [hne]
          rw [hnext, ih]
          rfl

/-- The lines of a block are those of the file's sheet. -/
theorem exists_blocks_of_mem (h : allEdits sheets = .ok edits)
    (hdistinct : (sheets.map Sheet.path).Pairwise fun file other => ¬ Path.same ⟨file⟩ ⟨other⟩)
    (hmem : sheet ∈ sheets) (hfirst : sheet.first = 0) :
    ∃ blocks, sheet.blocks = .ok blocks ∧
      ∀ block, linesOf edits sheet.path block = (blocks[block]?).getD [] := by
  obtain ⟨own, hown, hblocksAt⟩ := blocksAt_of_mem h hdistinct hmem
  obtain ⟨blocks, hblocks, rfl⟩ := edits_eq_ok_iff.mp hown
  refine ⟨blocks, hblocks, fun block => ?_⟩
  have hlookup := lookup_zipIdx blocks 0 block
  rw [Nat.zero_add] at hlookup
  rw [linesOf, hblocksAt, List.map_map, hfirst, ← hlookup]
  rfl

end Sheet

namespace Target

variable {interface : Interface} {sources : Sources} {edits : List Edit}

theorem exists_blocks (target : Target) {sheets : List Sheet} (sheet : Sheet)
    (h : Sheet.allEdits sheets = .ok edits) (hfiles : sheets.map Sheet.path = target.emitter.files)
    (hmem : sheet ∈ sheets) (hfirst : sheet.first = 0) :
    ∃ blocks, sheet.blocks = .ok blocks ∧
      ∀ block, linesOf edits sheet.path block = (blocks[block]?).getD [] :=
  Sheet.exists_blocks_of_mem h (hfiles ▸ target.pairwise_files) hmem hfirst

theorem core_headerBlocks (h : core.emitter.emit interface sources = .ok edits) :
    ∃ blocks, CoreLibrary.headerBlocks interface = .ok blocks ∧
      ∀ block, linesOf edits "yogi-core/include/yogi_core.h" block = (blocks[block]?).getD [] := by
  obtain ⟨schemas, -, h⟩ := except_bind_eq_ok_iff.mp h
  exact exists_blocks core (.ofBlocks "yogi-core/include/yogi_core.h" (CoreLibrary.headerBlocks interface)) h rfl
    (by simp [CoreLibrary.sheets, CoreLibrary.folder]) rfl

theorem core_header (h : core.emitter.emit interface sources = .ok edits) :
    linesOf edits "yogi-core/include/yogi_core.h" 1 = Constant.idLines interface ∧
    linesOf edits "yogi-core/include/yogi_core.h" 2 = Enumeration.headerLines interface ∧
    linesOf edits "yogi-core/include/yogi_core.h" 3 = FlagSet.headerLines interface := by
  obtain ⟨blocks, hblocks, hlines⟩ := core_headerBlocks h
  obtain ⟨functions, -, hblocks⟩ := except_bind_eq_ok_iff.mp hblocks
  cases hblocks
  exact ⟨hlines 1, hlines 2, hlines 3⟩

theorem core_constants (h : core.emitter.emit interface sources = .ok edits) :
    ∃ groups cases, interface.constants.mapM Constant.definition = .ok groups ∧
      interface.constants.mapM Constant.readingCase = .ok cases ∧
      linesOf edits "yogi-core/src/api/constants.h" 0 = groups.flatten ∧
      linesOf edits "yogi-core/src/api/constants.cc" 0 = cases ∧
      linesOf edits "yogi-core/test/api/constants_test.cc" 0
        = interface.constants.map Constant.comparison := by
  obtain ⟨schemas, -, h⟩ := except_bind_eq_ok_iff.mp h
  obtain ⟨blocks, hblocks, hdefinitions⟩ := exists_blocks core (.ofBlocks "yogi-core/src/api/constants.h"
    (return [← Constant.definitions interface])) h rfl
    (by simp [CoreLibrary.sheets, CoreLibrary.folder]) rfl
  obtain ⟨definitions, hdefined, hblocks⟩ := except_bind_eq_ok_iff.mp hblocks
  obtain ⟨groups, hgroups, hflatten⟩ := except_bind_eq_ok_iff.mp hdefined
  cases hflatten
  cases hblocks
  obtain ⟨blocks, hblocks, hcases⟩ := exists_blocks core (.ofBlocks "yogi-core/src/api/constants.cc"
    (return [← interface.constants.mapM Constant.readingCase])) h rfl
    (by simp [CoreLibrary.sheets, CoreLibrary.folder]) rfl
  obtain ⟨cases, hread, hblocks⟩ := except_bind_eq_ok_iff.mp hblocks
  cases hblocks
  obtain ⟨blocks, hblocks, hcomparisons⟩ := exists_blocks core
    (.single "yogi-core/test/api/constants_test.cc" (interface.constants.map Constant.comparison)) h rfl
    (by simp [CoreLibrary.sheets, CoreLibrary.folder]) rfl
  cases hblocks
  exact ⟨groups, cases, hgroups, hread, hdefinitions 0, hcases 0, hcomparisons 0⟩

theorem core_errors (h : core.emitter.emit interface sources = .ok edits) :
    linesOf edits "yogi-core/src/api/errors.cc" 0 = Enumeration.errorCases interface := by
  obtain ⟨schemas, -, h⟩ := except_bind_eq_ok_iff.mp h
  obtain ⟨blocks, hblocks, hlines⟩ := exists_blocks core
    (.single "yogi-core/src/api/errors.cc" (Enumeration.errorCases interface)) h rfl
    (by simp [CoreLibrary.sheets, CoreLibrary.folder]) rfl
  cases hblocks
  exact hlines 0

theorem mock_constants (h : mock.emitter.emit interface sources = .ok edits) :
    ∃ cases, interface.constants.mapM (Constant.mockCase interface.version) = .ok cases ∧
      linesOf edits "yogi-core-mock/src/default_functions.h" 1 = cases := by
  obtain ⟨defaults, -, h⟩ := except_bind_eq_ok_iff.mp h
  obtain ⟨blocks, hblocks, hlines⟩ := exists_blocks mock (.ofBlocks "yogi-core-mock/src/default_functions.h"
    (return [interface.version.mockReturnLines,
      ← interface.constants.mapM (Constant.mockCase interface.version)])) h rfl
    (by simp [MockLibrary.sheets, MockLibrary.defaultsFile, MockLibrary.folder]) rfl
  obtain ⟨cases, hread, hblocks⟩ := except_bind_eq_ok_iff.mp hblocks
  cases hblocks
  exact ⟨cases, hread, hlines 1⟩

theorem cpp_constants (h : cpp.emitter.emit interface sources = .ok edits) :
    ∃ blocks, Constant.cppBlocks interface = .ok blocks ∧
      ∀ block, linesOf edits "yogi-cpp/include/yogi/constants.h" block = (blocks[block]?).getD [] := by
  obtain ⟨headers, -, h⟩ := except_bind_eq_ok_iff.mp h
  exact exists_blocks cpp (.ofBlocks "yogi-cpp/include/yogi/constants.h" (Constant.cppBlocks interface)) h rfl
    (by simp [CppBindings.sheets, CppBindings.headerFolder, CppBindings.folder]) rfl

theorem cpp_enumerations (h : cpp.emitter.emit interface sources = .ok edits) (block : Nat) :
    linesOf edits "yogi-cpp/include/yogi/enums.h" block
      = ((CppBindings.enumerationBlocks interface)[block]?).getD [] := by
  obtain ⟨headers, -, h⟩ := except_bind_eq_ok_iff.mp h
  obtain ⟨blocks, hblocks, hlines⟩ := exists_blocks cpp (.ofBlocks "yogi-cpp/include/yogi/enums.h"
    (.ok (CppBindings.enumerationBlocks interface))) h rfl
    (by simp [CppBindings.sheets, CppBindings.headerFolder, CppBindings.folder]) rfl
  cases hblocks
  exact hlines block

theorem dotnet_constants (h : dotnet.emitter.emit interface sources = .ok edits) :
    linesOf edits "yogi-dotnet/yogi/Constants.cs" 1 = interface.constants.zipIdx.map fun entry =>
      Constant.csharpExtraction entry.1 (entry.2 + 1) := by
  obtain ⟨blocks, hblocks, hlines⟩ := exists_blocks dotnet (.ofBlocks "yogi-dotnet/yogi/Constants.cs"
    (Constant.csharpBlocks interface)) h rfl
    (by simp [DotnetBindings.sheets, DotnetBindings.folder]) rfl
  obtain ⟨members, -, hblocks⟩ := except_bind_eq_ok_iff.mp hblocks
  cases hblocks
  exact hlines 1

theorem dotnet_enumerations (h : dotnet.emitter.emit interface sources = .ok edits) (block : Nat) :
    linesOf edits "yogi-dotnet/yogi/Enums.cs" block
      = ((DotnetBindings.enumerationBlocks interface)[block]?).getD [] := by
  obtain ⟨blocks, hblocks, hlines⟩ := exists_blocks dotnet (.ofBlocks "yogi-dotnet/yogi/Enums.cs"
    (.ok (DotnetBindings.enumerationBlocks interface))) h rfl
    (by simp [DotnetBindings.sheets, DotnetBindings.folder]) rfl
  cases hblocks
  exact hlines block

theorem dotnet_functions (h : dotnet.emitter.emit interface sources = .ok edits) :
    ∃ loaders, interface.functions.mapM (Function.csharpLoader interface.types) = .ok loaders ∧
      linesOf edits "yogi-dotnet/yogi/Api.cs" 0 = loaders.flatten ++ [""] := by
  obtain ⟨blocks, hblocks, hlines⟩ := exists_blocks dotnet (.ofBlocks "yogi-dotnet/yogi/Api.cs"
    (return [← Function.csharpLines interface])) h rfl
    (by simp [DotnetBindings.sheets, DotnetBindings.folder]) rfl
  obtain ⟨lines, hloaded, hblocks⟩ := except_bind_eq_ok_iff.mp hblocks
  obtain ⟨loaders, hloaders, hflatten⟩ := except_bind_eq_ok_iff.mp hloaded
  cases hflatten
  cases hblocks
  exact ⟨loaders, hloaders, hlines 0⟩

theorem python_constants (h : python.emitter.emit interface sources = .ok edits) :
    ∃ attributes, (interface.constants.zipIdx.mapM fun entry =>
        Constant.pythonAttribute entry.1 (entry.2 + 1)) = .ok attributes ∧
      linesOf edits "yogi-python/yogi/_constants.py" 1 = attributes := by
  obtain ⟨blocks, hblocks, hlines⟩ := exists_blocks python (.ofBlocks "yogi-python/yogi/_constants.py"
    (Constant.pythonBlocks interface)) h rfl
    (by simp [PythonBindings.sheets, PythonBindings.folder]) rfl
  obtain ⟨attributes, hattributes, hblocks⟩ := except_bind_eq_ok_iff.mp hblocks
  obtain ⟨rows, -, hblocks⟩ := except_bind_eq_ok_iff.mp hblocks
  cases hblocks
  exact ⟨attributes, hattributes, hlines 1⟩

theorem python_enumerations (h : python.emitter.emit interface sources = .ok edits) :
    ∃ flagSets, interface.flagSets.mapM FlagSet.pythonLines = .ok flagSets ∧
      ∀ block, linesOf edits "yogi-python/yogi/_enums.py" block
        = ((interface.enumerations.map Enumeration.pythonMembers ++ flagSets)[block]?).getD [] := by
  obtain ⟨blocks, hblocks, hlines⟩ := exists_blocks python (.ofBlocks "yogi-python/yogi/_enums.py"
    (PythonBindings.enumerationBlocks interface)) h rfl
    (by simp [PythonBindings.sheets, PythonBindings.folder]) rfl
  obtain ⟨flagSets, hflagSets, hblocks⟩ := except_bind_eq_ok_iff.mp hblocks
  cases hblocks
  exact ⟨flagSets, hflagSets, hlines⟩

end Target

end Bindery
