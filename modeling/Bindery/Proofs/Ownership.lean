import Bindery.Proofs.Numbering
import Bindery.Proofs.Run

/-!
# Owners of blocks

Each block that the emitters render has one owner: no other edit, of the same emitter or of another one, is for
the same block of the same file. An emitter gives lines to every file that it lists, from the first block on
and without a gap, but for two exceptions: the build file of the core library has two blocks that are written
by hand, and the files of enumerations have no block when there is nothing to declare in them.
-/

namespace Bindery

/-- The file in which the blocks before and behind the one that is rendered are written by hand. -/
def buildFile : String := "yogi-core/CMakeLists.txt"

/-- The files that only declare enumerations and flag sets. -/
def enumerationFiles : List String :=
  ["yogi-cpp/include/yogi/enums.h", "yogi-dotnet/yogi/Enums.cs", "yogi-python/yogi/_enums.py"]

/-- The blocks of a file that edits give lines to. -/
def blockIndices (file : String) (edits : List Edit) : List Nat :=
  (FileEdits.blocksAt ⟨file⟩ edits).map Prod.fst

/-- Two edits are for one block of one file. -/
def Edit.Clashes (edit other : Edit) : Prop := edit.path.same other.path ∧ edit.block = other.block

/-- Edits do not clash when none of the files has a block twice. -/
theorem FileEdits.pairwise_of_nodup {edits : List Edit}
    (h : ∀ path, ((blocksAt path edits).map Prod.fst).Nodup) :
    edits.Pairwise fun edit other => ¬ edit.Clashes other := by
  rw [List.pairwise_iff_forall_sublist]
  rintro edit other hsublist ⟨hsame, hblock⟩
  have hself : edit.path.same edit.path := Path.same_iff.mpr rfl
  have hboth : [edit, other].filter (fun edit' => edit.path.same edit'.path) = [edit, other] :=
    List.filter_eq_self.mpr (by simp [hself, hsame])
  have hkept := hsublist.filter fun edit' => edit.path.same edit'.path
  rw [hboth] at hkept
  have htwice : List.Sublist [edit.block, other.block] ((blocksAt edit.path edits).map Prod.fst) := by
    rw [blocksAt, List.map_map]
    exact hkept.map Edit.block
  have hnodup := htwice.nodup (h edit.path)
  rw [hblock] at hnodup
  exact (List.nodup_cons.mp hnodup).1 List.mem_cons_self

namespace Sheet

variable {sheet : Sheet} {sheets : List Sheet} {edits : List Edit} {interface : Interface}

theorem blockIndices_of_mem (h : allEdits sheets = .ok edits)
    (hdistinct : (sheets.map Sheet.path).Pairwise fun file other => ¬ Path.same ⟨file⟩ ⟨other⟩)
    (hmem : sheet ∈ sheets) :
    ∃ blocks, sheet.blocks = .ok blocks ∧
      blockIndices sheet.path edits = List.range' sheet.first blocks.length := by
  obtain ⟨own, hown, hblocksAt⟩ := blocksAt_of_mem h hdistinct hmem
  obtain ⟨blocks, hblocks, rfl⟩ := edits_eq_ok_iff.mp hown
  refine ⟨blocks, hblocks, ?_⟩
  rw [blockIndices, hblocksAt, List.map_map, List.map_map]
  exact List.zipIdx_map_snd _ _

/-- The blocks of a sheet start at the first one of the file, unless it is the build file; and there are some,
unless it is a file of enumerations and there are none. -/
structure Fits (interface : Interface) (sheet : Sheet) : Prop where
  first : sheet.path ≠ buildFile → sheet.first = 0
  build : sheet.path = buildFile → sheet.first = 1 ∧ ∃ lines, sheet.blocks = .ok [lines]
  filled : ∀ blocks, sheet.blocks = .ok blocks →
    (blocks = [] ↔ sheet.path ∈ enumerationFiles ∧ interface.enumerations = [] ∧ interface.flagSets = [])

theorem fits_ofBlocks {path : String} {result : Except EmitError (List (List String))}
    (hpath : path ∉ buildFile :: enumerationFiles) (h : ∀ blocks, result = .ok blocks → blocks ≠ []) :
    Fits interface (ofBlocks path result) := by
  rw [List.mem_cons, not_or] at hpath
  exact
    { first := fun _ => rfl
      build := fun heq => absurd heq hpath.1
      filled := fun blocks hblocks => iff_of_false (h blocks hblocks) fun hempty => hpath.2 hempty.1 }

theorem fits_single {path : String} (hpath : path ∉ buildFile :: enumerationFiles) (lines : List String) :
    Fits interface (single path lines) :=
  fits_ofBlocks hpath fun blocks hblocks => by cases hblocks; simp

/-- The sheet of a file that has its blocks from a computation that can fail. -/
theorem fits_bind {α : Type} {path : String} {result : Except EmitError α} {blocks : α → List (List String)}
    (hpath : path ∉ buildFile :: enumerationFiles) (h : ∀ a, blocks a ≠ []) :
    Fits interface (ofBlocks path (result >>= fun a => pure (blocks a))) := by
  refine fits_ofBlocks hpath fun rendered hrendered => ?_
  obtain ⟨a, -, ha⟩ := except_bind_eq_ok_iff.mp hrendered
  cases ha
  exact h a

theorem fits_enumerations {path : String} {result : Except EmitError (List (List String))}
    (hpath : path ∈ enumerationFiles) {perEnumeration : Nat} (hsome : 0 < perEnumeration)
    (h : ∀ blocks, result = .ok blocks →
      blocks.length = perEnumeration * interface.enumerations.length + interface.flagSets.length) :
    Fits interface (ofBlocks path result) := by
  have hbuild : path ≠ buildFile := fun heq => absurd (heq ▸ hpath) (by decide)
  refine ⟨fun _ => rfl, fun heq => absurd heq hbuild, fun blocks hblocks => ?_⟩
  rw [← List.length_eq_zero_iff, h blocks hblocks, Nat.add_eq_zero_iff, Nat.mul_eq_zero, or_iff_right hsome.ne',
    List.length_eq_zero_iff, List.length_eq_zero_iff]
  exact (and_iff_right hpath).symm

theorem fits_second {path : String} (hpath : path = buildFile) (lines : List String) :
    Fits interface { single path lines with first := 1 } := by
  have hother : path ∉ enumerationFiles := hpath ▸ by decide
  exact
    { first := fun hne => absurd hpath hne
      build := fun _ => ⟨rfl, lines, rfl⟩
      filled := fun blocks hblocks => by
        cases hblocks
        exact iff_of_false (by simp) fun hempty => hother hempty.1 }

end Sheet

section Sheets

open Sheet

variable {interface : Interface}

theorem CoreLibrary.fits_sheets (schemas : List Schema) :
    ∀ sheet ∈ sheets interface schemas, sheet.Fits interface := by
  simp only [sheets, List.forall_mem_cons]
  exact ⟨fits_bind (by decide) (by simp), fits_bind (by decide) (by simp), fits_bind (by decide) (by simp),
    fits_single (by decide) _, fits_single (by decide) _, fits_single (by decide) _, fits_single (by decide) _,
    fits_ofBlocks (by decide) fun blocks hblocks => by cases hblocks; simp,
    fits_second (by decide) _, fits_single (by decide) _, by simp⟩

theorem MockLibrary.fits_sheets (defaults : String) :
    ∀ sheet ∈ sheets interface defaults, sheet.Fits interface := by
  simp only [sheets, List.forall_mem_cons]
  exact ⟨fits_bind (by decide) (by simp), fits_single (by decide) _, fits_bind (by decide) (by simp),
    fits_single (by decide) _, fits_single (by decide) _, by simp⟩

theorem CppBindings.length_enumerationBlocks (interface : Interface) :
    (enumerationBlocks interface).length = 2 * interface.enumerations.length + interface.flagSets.length := by
  unfold enumerationBlocks
  rw [List.length_append, List.length_map]
  induction interface.enumerations with
  | nil => rfl
  | cons enumeration rest ih =>
      rw [List.flatMap_cons, List.length_append, List.length_cons, List.length_cons, List.length_cons]
      simp only [List.length_nil]
      omega

theorem CppBindings.fits_sheets (headers : List String) :
    ∀ sheet ∈ sheets interface headers, sheet.Fits interface := by
  simp only [sheets, List.forall_mem_cons]
  exact ⟨fits_single (by decide) _, fits_bind (by decide) (by simp), fits_single (by decide) _,
    fits_bind (by decide) (by simp), fits_single (by decide) _,
    fits_enumerations (by decide) Nat.two_pos fun blocks hblocks => by
      cases hblocks
      exact length_enumerationBlocks interface,
    fits_bind (by decide) (by simp), fits_bind (by decide) (by simp), fits_single (by decide) _, by simp⟩

theorem DotnetBindings.fits_sheets : ∀ sheet ∈ sheets interface, sheet.Fits interface := by
  simp only [sheets, List.forall_mem_cons]
  exact ⟨fits_single (by decide) _, fits_single (by decide) _, fits_single (by decide) _,
    fits_bind (by decide) (by simp),
    fits_enumerations (by decide) Nat.one_pos fun blocks hblocks => by
      cases hblocks
      simp [enumerationBlocks],
    fits_bind (by decide) (by simp), fits_bind (by decide) (by simp), fits_single (by decide) _, by simp⟩

theorem PythonBindings.length_enumerationBlocks {blocks : List (List String)}
    (h : enumerationBlocks interface = .ok blocks) :
    blocks.length = 1 * interface.enumerations.length + interface.flagSets.length := by
  obtain ⟨flagSets, hflagSets, hblocks⟩ := except_bind_eq_ok_iff.mp h
  cases hblocks
  rw [List.length_append, List.length_map, (forall₂_of_mapM hflagSets).length_eq, Nat.one_mul]

theorem PythonBindings.fits_sheets : ∀ sheet ∈ sheets interface, sheet.Fits interface := by
  simp only [sheets, List.forall_mem_cons]
  refine ⟨fits_bind (by decide) (by simp),
    fits_enumerations (by decide) Nat.one_pos fun blocks => length_enumerationBlocks,
    fits_ofBlocks (by decide) fun blocks hblocks => ?_, fits_single (by decide) _,
    fits_bind (by decide) (by simp), fits_bind (by decide) (by simp), fits_single (by decide) _, by simp⟩
  obtain ⟨attributes, -, hblocks⟩ := except_bind_eq_ok_iff.mp hblocks
  obtain ⟨rows, -, hblocks⟩ := except_bind_eq_ok_iff.mp hblocks
  cases hblocks
  simp

end Sheets

namespace Target

variable {target other : Target} {interface : Interface} {sources : Sources} {file file' : String}

/-- The emitter of a target yields the edits of sheets that fit the files it lists. -/
theorem exists_sheets_fit {edits : List Edit} (h : target.emitter.emit interface sources = .ok edits) :
    ∃ sheets, Sheet.allEdits sheets = .ok edits ∧ sheets.map Sheet.path = target.emitter.files ∧
      ∀ sheet ∈ sheets, sheet.Fits interface := by
  cases target with
  | core =>
      obtain ⟨schemas, -, h⟩ := except_bind_eq_ok_iff.mp h
      exact ⟨_, h, rfl, CoreLibrary.fits_sheets schemas⟩
  | mock =>
      obtain ⟨defaults, -, h⟩ := except_bind_eq_ok_iff.mp h
      exact ⟨_, h, rfl, MockLibrary.fits_sheets defaults⟩
  | cpp =>
      obtain ⟨headers, -, h⟩ := except_bind_eq_ok_iff.mp h
      exact ⟨_, h, rfl, CppBindings.fits_sheets headers⟩
  | dotnet => exact ⟨_, h, rfl, DotnetBindings.fits_sheets⟩
  | python => exact ⟨_, h, rfl, PythonBindings.fits_sheets⟩

/-- The files of different targets lie in different folders. -/
theorem eq_of_same_files (h : file ∈ target.emitter.files) (h' : file' ∈ other.emitter.files)
    (hsame : Path.same ⟨file⟩ ⟨file'⟩) : target = other := by
  have hjoin (file : String) : Path.join ⟨""⟩ file = ⟨file⟩ := by simp [Path.join]
  have hlocation : (Path.join ⟨""⟩ file).location = (Path.join ⟨""⟩ file').location := by
    rw [hjoin, hjoin, Path.location, Path.same_iff.mp hsame, Path.location]
  have hholds : target.Holds ⟨""⟩ (Path.join ⟨""⟩ file).location := Owns.holds ⟨file, h, rfl⟩
  have hholds' : other.Holds ⟨""⟩ (Path.join ⟨""⟩ file).location := Owns.holds ⟨file', h', hlocation⟩
  exact eq_of_holds hholds hholds'

theorem pairwise_edits {edits : Target → List Edit}
    (hemit : ∀ target : Target, target.emitter.emit interface sources = .ok (edits target)) :
    (all.flatMap edits).Pairwise fun edit other => ¬ edit.Clashes other := by
  have hall : all.Nodup := by decide
  rw [List.pairwise_flatMap]
  refine ⟨fun target _ => FileEdits.pairwise_of_nodup fun path => nodup_blocksAt (hemit target) path, ?_⟩
  refine hall.imp fun {target other} hne edit hedit edit' hedit' hclash => hne ?_
  obtain ⟨file, hfile, hpath⟩ := path_of_mem_edits (hemit target) hedit
  obtain ⟨file', hfile', hpath'⟩ := path_of_mem_edits (hemit other) hedit'
  exact eq_of_same_files hfile hfile' (hpath ▸ hpath' ▸ hclash.1)

theorem blockIndices_of_mem_files {edits : List Edit} (h : target.emitter.emit interface sources = .ok edits)
    (hfile : file ∈ target.emitter.files) :
    (blockIndices file edits = [] ↔
      file ∈ enumerationFiles ∧ interface.enumerations = [] ∧ interface.flagSets = []) ∧
    blockIndices file edits =
      if file = buildFile then [1] else List.range (blockIndices file edits).length := by
  obtain ⟨sheets, hsheets, hpaths, hfit⟩ := exists_sheets_fit h
  obtain ⟨sheet, hsheet, rfl⟩ : ∃ sheet ∈ sheets, sheet.path = file := by
    rw [← hpaths] at hfile
    exact List.mem_map.mp hfile
  obtain ⟨blocks, hblocks, hindices⟩ :=
    Sheet.blockIndices_of_mem hsheets (hpaths ▸ target.pairwise_files) hsheet
  have hsheetFits := hfit sheet hsheet
  refine ⟨?_, ?_⟩
  · rw [hindices, List.range'_eq_nil_iff, List.length_eq_zero_iff]
    exact hsheetFits.filled blocks hblocks
  · split
    next hbuild =>
      obtain ⟨hfirst, lines, hlines⟩ := hsheetFits.build hbuild
      obtain rfl := Except.ok.inj (hblocks.symm.trans hlines)
      rw [hindices, hfirst]
      rfl
    next hbuild =>
      rw [hindices, hsheetFits.first hbuild, List.length_range', List.range_eq_range']

/-- No two edits of the emitters together are for one block of one file. Each emitter gives lines to files that
it lists, and to each of them but those of enumerations when there are neither enumerations nor flag sets. The
blocks of a file are numbered from zero without a gap, but the build file has lines for its second block only. -/
theorem blocks_owned {edits : Target → List Edit}
    (hemit : ∀ target : Target, target.emitter.emit interface sources = .ok (edits target)) :
    (all.flatMap edits).Pairwise (fun edit other => ¬ edit.Clashes other) ∧
    ∀ target : Target,
      (∀ edit ∈ edits target, edit.path.text ∈ target.emitter.files) ∧
      ∀ file ∈ target.emitter.files,
        (blockIndices file (edits target) = [] ↔
          file ∈ enumerationFiles ∧ interface.enumerations = [] ∧ interface.flagSets = []) ∧
        blockIndices file (edits target) =
          if file = buildFile then [1] else List.range (blockIndices file (edits target)).length := by
  refine ⟨pairwise_edits hemit, fun target => ⟨fun edit hedit => ?_, fun file hfile => ?_⟩⟩
  · obtain ⟨file, hfile, hpath⟩ := path_of_mem_edits (hemit target) hedit
    rwa [hpath]
  · exact blockIndices_of_mem_files (hemit target) hfile

/-- All emitters succeed on the described interface. -/
theorem blocks_owned_described : ∃ (interface : Interface) (edits : Target → List Edit),
    (∀ target : Target, target.emitter.emit interface Sample.sources = .ok (edits target)) ∧
      (all.flatMap edits).Pairwise (fun edit other => ¬ edit.Clashes other) ∧
      blockIndices buildFile (edits .core) = [1] := by
  obtain ⟨interface, edits, -, hemit, -⟩ := Sample.exists_emitted
  obtain ⟨hclashes, hfiles⟩ := blocks_owned hemit
  refine ⟨interface, edits, hemit, hclashes, ?_⟩
  rw [((hfiles .core).2 buildFile (by decide)).2, if_pos rfl]

end Target

end Bindery
