import Bindery.Proofs.MemberLines

/-!
# Numbers of constants and members

Every target numbers the constants of an interface and the members of its enumerations on its own. The
numbers agree, and so do the names under which the core and mock libraries and their tests go by the
constants.
-/

namespace Bindery

open Text Naming Declaration

namespace Constant

/-- The macros that the header of the core library defines for the constants, with their values. -/
def headerMacros (edits : Target → List Edit) : List (String × String) :=
  (linesOf (edits .core) "yogi-core/include/yogi_core.h" 1).filterMap macro?

/-- The names under which the libraries know the constants. -/
def variableNames (interface : Interface) : List String :=
  interface.constants.map fun constant => "k" ++ pascalCase constant.name

/-- Lines of the core library define constants under the given names, one after the other: the first line of
each declares its name, and those behind it hold literals. -/
inductive DefinedAs : List Constant → List String → List String → Prop
  | nil : DefinedAs [] [] []
  | cons {constant : Constant} {type name first : String} {literals : List String} {constants : List Constant}
      {names lines : List String} (htype : constant.typeIn .c = .ok type)
      (hfirst : coreVariable? type first = some name)
      (hliterals : ∀ line ∈ literals, "    ".toList <+: line.toList) (hrest : DefinedAs constants names lines) :
      DefinedAs (constant :: constants) (name :: names) (first :: literals ++ lines)

/-- The files of the targets name the constants in order. The numbers that they give them are the places of the
constants in the description, counted from one; the core and mock libraries and their tests go by the macros
that the header defines, and by the names that the core library declares. -/
structure Agree (interface : Interface) (edits : Target → List Edit) : Prop where
  header : headerMacros edits = (interface.constants.zipIdx 1).map fun (constant, id) =>
    ("YOGI_CONST_" ++ constant.name, toString id)
  definitions : DefinedAs interface.constants (variableNames interface)
    (linesOf (edits .core) "yogi-core/src/api/constants.h" 0)
  caseLabels : (linesOf (edits .core) "yogi-core/src/api/constants.cc" 0).map label?
    = ((headerMacros edits).map Prod.fst).map some
  caseNames : (linesOf (edits .core) "yogi-core/src/api/constants.cc" 0).map assigned?
    = (variableNames interface).map some
  checks : (linesOf (edits .core) "yogi-core/test/api/constants_test.cc" 0).map compared?
    = (((headerMacros edits).map Prod.fst).zip (variableNames interface)).map some
  mockCases : (linesOf (edits .mock) "yogi-core-mock/src/default_functions.h" 1).map label?
    = ((headerMacros edits).map Prod.fst).map some
  cppDeclarations : List.Forall₂
    (fun line (constant : Constant) => ∃ type, constant.typeIn .cpp = .ok type ∧
      cppVariable? type line = some ("k" ++ pascalCase constant.name))
    (linesOf (edits .cpp) "yogi-cpp/include/yogi/constants.h" 0) interface.constants
  cppCalls : List.Forall₂
    (fun line (constant, id) => ∃ type, constant.typeIn .cpp = .ok type ∧
      cppConstant? type line = some ("k" ++ pascalCase constant.name, toString id))
    (linesOf (edits .cpp) "yogi-cpp/include/yogi/constants.h" 1) (interface.constants.zipIdx 1)
  dotnetCalls : (linesOf (edits .dotnet) "yogi-dotnet/yogi/Constants.cs" 1).map extracted?
    = (interface.constants.zipIdx 1).map fun (constant, id) => some (pascalCase constant.name, toString id)
  pythonCalls : (linesOf (edits .python) "yogi-python/yogi/_constants.py" 1).map attribute?
    = (interface.constants.zipIdx 1).map fun (constant, id) => some (constant.name, toString id)

variable {interface : Interface} {sources : Sources} {edits : Target → List Edit}

theorem definedAs_of_mapM {constants : List Constant} {groups : List (List String)}
    (hnames : ∀ constant ∈ constants, Nominal constant.name) (h : constants.mapM definition = .ok groups) :
    DefinedAs constants (constants.map fun constant => "k" ++ pascalCase constant.name) groups.flatten := by
  have hgroups := (List.forall₂_and_left _ _).mpr ⟨hnames, (forall₂_of_mapM h).flip⟩
  clear hnames h
  induction hgroups with
  | nil => exact .nil
  | cons hfirst _ ih =>
      obtain ⟨hname, hgroup⟩ := hfirst
      obtain ⟨type, first, literals, htype, rfl, hvariable, hliterals⟩ := coreVariable?_definition hname hgroup
      exact .cons htype hvariable hliterals ih

theorem headerMacros_eq (hnames : ∀ constant ∈ interface.constants, Nominal constant.name)
    (hemit : Target.core.emitter.emit interface sources = .ok (edits .core)) :
    headerMacros edits = (interface.constants.zipIdx 1).map fun entry => (entry.1.macroName, toString entry.2) := by
  rw [headerMacros, (Target.core_header hemit).1, filterMap_macro?_idLines hnames]

theorem map_fst_headerMacros (hnames : ∀ constant ∈ interface.constants, Nominal constant.name)
    (hemit : Target.core.emitter.emit interface sources = .ok (edits .core)) :
    (headerMacros edits).map Prod.fst = interface.constants.map macroName := by
  calc (headerMacros edits).map Prod.fst = ((interface.constants.zipIdx 1).map Prod.fst).map macroName := by
        rw [headerMacros_eq hnames hemit, List.map_map, List.map_map]
        rfl
    _ = interface.constants.map macroName := by rw [List.zipIdx_map_fst]

theorem agree_of_emit (hnames : ∀ constant ∈ interface.constants, Nominal constant.name)
    (hemit : ∀ target : Target, target.emitter.emit interface sources = .ok (edits target)) :
    Agree interface edits := by
  obtain ⟨groups, cases, hgroups, hcases, hdefinitions, hreading, hchecks⟩ :=
    Target.core_constants (hemit .core)
  obtain ⟨mockCases, hmockCases, hmock⟩ := Target.mock_constants (hemit .mock)
  obtain ⟨blocks, hblocks, hcpp⟩ := Target.cpp_constants (hemit .cpp)
  obtain ⟨hdeclarations, hcalls⟩ := cppBlocks_read hnames hblocks
  obtain ⟨attributes, hattributes, hpython⟩ := Target.python_constants (hemit .python)
  have hmacros := map_fst_headerMacros hnames (hemit .core)
  have hpositions : ∀ entry ∈ interface.constants.zipIdx, Nominal entry.1.name :=
    fun entry hentry => hnames entry.1 (List.fst_mem_of_mem_zipIdx hentry)
  exact
    { header := by
        rw [headerMacros_eq hnames (hemit .core)]
        exact List.map_congr_left fun entry _ => by rw [macroName_eq]
      definitions := by
        rw [hdefinitions]
        exact definedAs_of_mapM hnames hgroups
      caseLabels := by
        rw [hmacros, hreading, List.map_map]
        exact map_eq_map_of_mapM hcases fun constant hconstant line hline =>
          (readingCase_reads (hnames constant hconstant) hline).1
      caseNames := by
        rw [variableNames, hreading, List.map_map]
        exact map_eq_map_of_mapM hcases fun constant hconstant line hline =>
          (readingCase_reads (hnames constant hconstant) hline).2
      checks := by
        rw [hmacros, variableNames, List.zip_map', hchecks, List.map_map, List.map_map]
        exact List.map_congr_left fun constant hconstant => compared?_comparison (hnames constant hconstant)
      mockCases := by
        rw [hmacros, hmock, List.map_map]
        exact map_eq_map_of_mapM hmockCases fun constant hconstant line hline =>
          label?_mockCase (hnames constant hconstant) hline
      cppDeclarations := hcpp 0 ▸ hdeclarations
      cppCalls := hcpp 1 ▸ hcalls
      dotnetCalls := by
        rw [Target.dotnet_constants (hemit .dotnet), List.zipIdx_succ, List.map_map, List.map_map]
        refine List.map_congr_left fun entry hentry => ?_
        rw [Function.comp_apply, extracted?_csharpExtraction (hpositions entry hentry)]
        rfl
      pythonCalls := by
        rw [hpython, List.zipIdx_succ, List.map_map]
        refine map_eq_map_of_mapM hattributes fun entry hentry line hline => ?_
        exact attribute?_pythonAttribute (hpositions entry hentry) hline }

end Constant

/-- The value that a member at a position has: the position, counted in one direction or the other, or the number
that its key spells. -/
inductive Numbering.Assigns : Numbering → Nat → Member → Int → Prop
  | sequential {position : Nat} {member : Member} : Assigns .sequential position member position
  | zeroAndDescending {position : Nat} {member : Member} : Assigns .zeroAndDescending position member (-position)
  | minusOneAscending {position : Nat} {member : Member} : Assigns .minusOneAscending position member (position - 1)
  | explicitKeyed {position : Nat} {member : Member} {value : Int}
      (hkey : Toml.Spells member.name.toList value) : Assigns .explicitKeyed position member value

namespace Enumeration

/-- The files of the targets declare the members of every enumeration in order, and give each of them its
value. The C++ file has two blocks for each enumeration, of which the first declares the members. -/
structure Agree (interface : Interface) (edits : Target → List Edit) : Prop where
  once : ∀ enumeration ∈ interface.enumerations, enumeration.values.map Prod.fst = enumeration.members
  numbered : ∀ enumeration ∈ interface.enumerations, ∀ position member value,
    enumeration.values[position]? = some (member, value) → enumeration.numbering.Assigns position member value
  header : (linesOf (edits .core) "yogi-core/include/yogi_core.h" 2).filterMap macro?
    = interface.enumerations.flatMap fun enumeration => enumeration.values.map fun entry =>
      (enumeration.macroName entry.1.name entry.2, toString entry.2)
  cpp : ∀ index enumeration, interface.enumerations[index]? = some enumeration →
    (linesOf (edits .cpp) "yogi-cpp/include/yogi/enums.h" (2 * index)).map member?
      = enumeration.values.map fun entry => some (kName entry.1.name, toString entry.2)
  dotnet : ∀ index enumeration, interface.enumerations[index]? = some enumeration →
    (linesOf (edits .dotnet) "yogi-dotnet/yogi/Enums.cs" index).filterMap member?
      = enumeration.values.map fun entry => (enumeration.pascalName entry.1.name, toString entry.2)
  python : ∀ index enumeration, interface.enumerations[index]? = some enumeration →
    (linesOf (edits .python) "yogi-python/yogi/_enums.py" index).map member?
      = enumeration.values.map fun entry => some (enumeration.constantName entry.1.name, toString entry.2)

variable {interface : Interface} {sources : Sources} {edits : Target → List Edit} {index : Nat}
  {enumeration : Enumeration}

theorem getElem?_cppBlocks (h : interface.enumerations[index]? = some enumeration) :
    (CppBindings.enumerationBlocks interface)[2 * index]? = some enumeration.cppMembers := by
  unfold CppBindings.enumerationBlocks
  generalize interface.enumerations = enumerations at h
  induction enumerations generalizing index with
  | nil => cases h
  | cons first rest ih =>
      cases index with
      | zero =>
          cases h
          rfl
      | succ index => exact ih h

theorem getElem?_append_of_map {α β : Type} {f : α → β} {items : List α} {others : List β} {item : α}
    (h : items[index]? = some item) : (items.map f ++ others)[index]? = some (f item) := by
  have hlt : index < (items.map f).length := by
    rw [List.length_map]
    exact (List.getElem?_eq_some_iff.mp h).1
  rw [List.getElem?_append_left hlt, List.getElem?_map, h, Option.map_some]

/-- A member has the value that the numbering of its enumeration assigns to its place. -/
theorem Sound.assigns {position : Nat} {member : Member} {value : Int} (h : enumeration.Sound)
    (hentry : enumeration.values[position]? = some (member, value)) :
    enumeration.numbering.Assigns position member value := by
  rw [values, List.getElem?_map, List.getElem?_zipIdx, Option.map_map] at hentry
  obtain ⟨_, hmember, hpair⟩ := Option.map_eq_some_iff.mp hentry
  rw [Function.comp_apply, Nat.zero_add] at hpair
  obtain ⟨rfl, rfl⟩ := Prod.mk.inj hpair
  have hsound := h.members _ (List.mem_of_getElem? hmember)
  unfold valueAt
  cases hnumbering : enumeration.numbering with
  | sequential => exact .sequential
  | zeroAndDescending => exact .zeroAndDescending
  | minusOneAscending => exact .minusOneAscending
  | explicitKeyed =>
      obtain ⟨value, hvalue⟩ := Option.isSome_iff_exists.mp (hsound.keyed.mpr hnumbering)
      rw [hvalue]
      exact .explicitKeyed (hsound.spelled value hvalue)

theorem agree_of_emit (hsound : ∀ enumeration ∈ interface.enumerations, enumeration.Sound)
    (hemit : ∀ target : Target, target.emitter.emit interface sources = .ok (edits target)) :
    Agree interface edits := by
  have hnamed := fun enumeration hmem => (hsound enumeration hmem).named
  obtain ⟨flagSets, -, hpython⟩ := Target.python_enumerations (hemit .python)
  exact
    { once := fun enumeration _ => values_map_fst enumeration
      numbered := fun enumeration hmem _ _ _ hentry => (hsound enumeration hmem).assigns hentry
      header := by
        rw [(Target.core_header (hemit .core)).2.1, filterMap_macro?_headerLines hnamed]
      cpp := by
        intro index enumeration hindex
        rw [Target.cpp_enumerations (hemit .cpp), getElem?_cppBlocks hindex, Option.getD_some]
        exact map_member?_cppMembers (hnamed enumeration (List.mem_of_getElem? hindex))
      dotnet := by
        intro index enumeration hindex
        rw [Target.dotnet_enumerations (hemit .dotnet), DotnetBindings.enumerationBlocks,
          getElem?_append_of_map hindex, Option.getD_some]
        exact filterMap_member?_csharpMembers (hnamed enumeration (List.mem_of_getElem? hindex))
      python := by
        intro index enumeration hindex
        rw [hpython, getElem?_append_of_map hindex, Option.getD_some]
        exact map_member?_pythonMembers (hnamed enumeration (List.mem_of_getElem? hindex)) }

end Enumeration

namespace Interface

variable {file source : String} {interface : Interface} {sources : Sources} {edits : Target → List Edit}

/-- The constants and the members of a description that is loaded go by the same numbers in the files of
all targets, in the order of the document. -/
theorem numbers_agree (hload : load file source = .ok interface)
    (hemit : ∀ target : Target, target.emitter.emit interface sources = .ok (edits target)) :
    Constant.Agree interface edits ∧ Enumeration.Agree interface edits ∧
      ∃ table, Toml.read? source = some table ∧ interface.InOrder table := by
  obtain ⟨table, records, htable, hread, hrecords⟩ := exists_records_of_load hload
  obtain ⟨hsound, horder⟩ := of_ofRecords (Toml.distinct_of_read? htable) hread hrecords
  have hnames : ∀ constant ∈ interface.constants, Nominal constant.name :=
    fun constant hconstant => nominal_of_isValid (hsound.constants constant hconstant).name_valid
  exact ⟨Constant.agree_of_emit hnames hemit, Enumeration.agree_of_emit hsound.enumerations hemit, table, htable,
    horder⟩

end Interface

namespace Sample

/-- What the emitters read: the hand-written part of the mock library, and a header of the C++ bindings. -/
def sources : Sources where
  checkout :=
    { files :=
        [ (["yogi-core-mock", "src", "default_functions.h"], .text ""),
          (["yogi-cpp", "include", "yogi", "constants.h"], .text "") ]
      folders := []
      isTree := ⟨by decide +kernel, by decide +kernel, by decide +kernel, by simp, by decide +kernel⟩ }
  root := ⟨"."⟩

/-- Whether all emitters succeed. -/
def isEmitted (interface : Interface) : Bool :=
  Target.all.all fun target => (target.emitter.emit interface sources).isOk

theorem exists_emitted_of_described {source : String} {text : List Char} {holds : Interface → Prop}
    [DecidablePred holds] (htext : source.toList = text)
    (h : (Interface.described? "core_api.toml" source text).any
      (fun interface => decide (isEmitted interface = true ∧ holds interface)) = true) :
    ∃ (interface : Interface) (edits : Target → List Edit),
      Interface.load "core_api.toml" source = .ok interface ∧
        (∀ target : Target, target.emitter.emit interface sources = .ok (edits target)) ∧
        holds interface := by
  obtain ⟨interface, hload, hemitted, hholds⟩ := Interface.exists_load_of_described htext h
  have hemit (target : Target) : Succeeds (target.emitter.emit interface sources) := by
    have hok := List.all_eq_true.mp hemitted target (by cases target <;> decide)
    cases hedits : target.emitter.emit interface sources with
    | ok edits => exact succeeds_ok edits
    | error error =>
        rw [hedits] at hok
        cases hok
  choose edits hedits using hemit
  exact ⟨interface, edits, hload, hedits, hholds⟩

/-- The flag set of the description. -/
def events : FlagSet :=
  { name := "events"
    macroPrefix? := none
    flags := [⟨"sent", "", .bit (some 0)⟩, ⟨"received", "", .bit (some 1)⟩,
      ⟨"all", "", .combine ["sent", "received"]⟩] }

set_option maxRecDepth 10000 in
theorem exists_emitted : ∃ (interface : Interface) (edits : Target → List Edit),
    Interface.load "core_api.toml" description = .ok interface ∧
      (∀ target : Target, target.emitter.emit interface sources = .ok (edits target)) ∧
      interface.flagSets = [events] :=
  exists_emitted_of_described String.toList_ofList (by decide +kernel)

end Sample

theorem Interface.numbers_agree_described : ∃ (interface : Interface) (edits : Target → List Edit),
    load "core_api.toml" Sample.description = .ok interface ∧
      (∀ target : Target, target.emitter.emit interface Sample.sources = .ok (edits target)) ∧
      Constant.Agree interface edits ∧ Enumeration.Agree interface edits ∧
      ∃ table, Toml.read? Sample.description = some table ∧ interface.InOrder table := by
  obtain ⟨interface, edits, hload, hemit, -⟩ := Sample.exists_emitted
  exact ⟨interface, edits, hload, hemit, numbers_agree hload hemit⟩

end Bindery
