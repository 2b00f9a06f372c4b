import Bindery.Proofs.HeaderComments
import Mathlib.Data.List.Perm.Basic

/-!
# Names of macros

All macros of the header share one prefix, and what is behind it is glued together from how the macros of a
group start and a name. The macros of one group are different. Two groups can only have a macro in common when
the macros of one start like those of the other do, and go on like one of its names.
-/

namespace Bindery

open Text Naming Declaration

namespace Declaration

variable {name first tail : String}

/-- The name of the macro that a line of C defines. -/
def macroName? (line : String) : Option String :=
  match Text.words line.toList with
  | directive :: name :: _ => if directive = "#define".toList then some (String.ofList name) else none
  | _ => none

theorem macroName?_define (hname : Nominal name) (hsome : name.toList ≠ []) (tail : String) :
    macroName? ("#define " ++ name ++ " " ++ tail) = some name := by
  have hline : ("#define " ++ name ++ " " ++ tail).toList
      = "#define".toList ++ ' ' :: (name.toList ++ ' ' :: tail.toList) := by
    simp [String.toList_append]
  unfold macroName?
  rw [hline, words_graphic_append_cons (by simp) (by decide) (by decide),
    words_graphic_append_cons hsome hname.graphic (by decide)]
  simp

/-- A line with another first word defines no macro. -/
theorem macroName?_eq_none (hsome : first.toList ≠ []) (hfirst : Graphic first)
    (hne : first.toList ≠ "#define".toList) (htail : BlankFirst tail) : macroName? (first ++ tail) = none := by
  unfold macroName?
  rw [String.toList_append, words_graphic_append hsome hfirst htail]
  generalize Text.words tail.toList = others
  cases others with
  | nil => rfl
  | cons name others => exact if_neg hne

end Declaration

namespace Define

variable {define : Define} {defines : List Define} {groups : List (List Define)}

/-- A definition whose name is read back. -/
structure IsNamed (define : Define) : Prop where
  nominal : Nominal define.name
  ne_empty : define.name.toList ≠ []

theorem IsNamed.macroName?_directive (h : define.IsNamed) : macroName? define.directive = some define.name :=
  macroName?_define h.nominal h.ne_empty define.value

theorem IsNamed.macroName?_line (h : define.IsNamed) (width : Nat) :
    macroName? (define.line width) = some define.name := by
  rw [line]
  split
  · exact h.macroName?_directive
  · have hdefine (rest : String) : macroName? (define.directive ++ rest) = some define.name := by
      rw [directive, String.append_assoc]
      exact macroName?_define h.nominal h.ne_empty _
    rw [padRight, String.append_assoc, String.append_assoc]
    exact hdefine _

theorem filterMap_macroName?_lines (h : ∀ define ∈ defines, define.IsNamed) :
    (lines defines).filterMap macroName? = defines.map name :=
  filterMap_map_of_forall fun define hdefine => (h define hdefine).macroName?_line _

theorem filterMap_macroName?_separate (h : ∀ group ∈ groups, ∀ define ∈ group, define.IsNamed) :
    (separate (groups.map lines)).filterMap macroName? = groups.flatten.map name := by
  rw [filterMap_separate (by decide), List.flatMap_map, List.map_flatten, ← List.flatMap_def]
  exact List.flatMap_congr fun group hgroup => filterMap_macroName?_lines (h group hgroup)

end Define

namespace Constant

variable {constant : Constant} {interface : Interface}

theorem macroName?_comment (constant : Constant) : macroName? constant.comment = none := by
  have hmark : Graphic "//!" := by decide
  rw [comment]
  split
  · have hblank : BlankFirst "" := by decide
    exact macroName?_eq_none (by simp) hmark (by simp) hblank
  · have hhelp : BlankFirst (" " ++ constant.help) := blankFirst_of_ne (by simp) (by decide)
    have hnone := macroName?_eq_none (by simp) hmark (by simp) hhelp
    rwa [← String.append_assoc] at hnone

theorem filterMap_macroName?_idLines (h : ∀ constant ∈ interface.constants, Nominal constant.name) :
    (idLines interface).filterMap macroName? = interface.constants.map macroName := by
  have hrows : ∀ entry ∈ interface.constants.zipIdx 1, (idRows entry).filterMap macroName? = [entry.1.macroName] := by
    intro entry hentry
    have hnamed : (entry.1.define entry.2).IsNamed :=
      ⟨nominal_macroName (h entry.1 (List.fst_mem_of_mem_zipIdx hentry)), macroName_ne_empty entry.1⟩
    have hdefine : macroName? (entry.1.define entry.2).directive = some entry.1.macroName :=
      hnamed.macroName?_directive
    have hblank : macroName? "" = none := by decide
    rw [idRows, List.filterMap_append, List.filterMap_cons_none (macroName?_comment entry.1),
      List.filterMap_cons_some hdefine]
    split
    · rw [List.filterMap_cons_none hblank]
      rfl
    · rfl
  calc (idLines interface).filterMap macroName?
      = (interface.constants.zipIdx 1).map fun entry => entry.1.macroName := by
        rw [idLines_eq, filterMap_flatMap_of_forall hrows]
    _ = ((interface.constants.zipIdx 1).map Prod.fst).map macroName := by
        rw [List.map_map]
        rfl
    _ = interface.constants.map macroName := by rw [List.zipIdx_map_fst]

end Constant

/-! ## Groups -/

/-- Macros that start alike, and go on with names. -/
structure MacroGroup where
  stem : String
  names : List String
deriving DecidableEq, Repr

namespace MacroGroup

variable {first second : MacroGroup}

def macros (group : MacroGroup) : List String := group.names.map (group.stem ++ ·)

/-- Where the second group starts like the first one and goes on, this does not lead from one of its names to one
of the first group's. -/
def Keeps (first second : MacroGroup) : Prop :=
  ∀ rest, second.stem = first.stem ++ rest → ∀ name ∈ second.names, rest ++ name ∉ first.names

def Apart (first second : MacroGroup) : Prop := first.Keeps second ∧ second.Keeps first

/-- Two groups have no macro in common exactly if neither goes on from the other to one of its names. -/
theorem disjoint_macros_iff : first.macros.Disjoint second.macros ↔ first.Apart second := by
  have hkeeps {first second : MacroGroup} (hdisjoint : first.macros.Disjoint second.macros) : first.Keeps second := by
    intro rest hstem name hname hmem
    refine hdisjoint (List.mem_map_of_mem hmem) (List.mem_map.mpr ⟨name, hname, ?_⟩)
    rw [hstem, String.append_assoc]
  constructor
  · exact fun hdisjoint => ⟨hkeeps hdisjoint, hkeeps (List.disjoint_symm hdisjoint)⟩
  · rintro ⟨hfirst, hsecond⟩ text hmem hmem'
    obtain ⟨name, hname, rfl⟩ := List.mem_map.mp hmem
    obtain ⟨other, hother, heq⟩ := List.mem_map.mp hmem'
    have hchars : second.stem.toList ++ other.toList = first.stem.toList ++ name.toList := by
      rw [← String.toList_append, heq, String.toList_append]
    rcases List.append_eq_append_iff.mp hchars with ⟨rest, hstem, hrest⟩ | ⟨rest, hstem, hrest⟩
    · refine hsecond (String.ofList rest) (String.toList_inj.mp ?_) name hname ?_
      · rw [hstem, String.toList_append, String.toList_ofList]
      · rwa [← String.ofList_toList (s := name), ← String.ofList_append, ← hrest, String.ofList_toList]
    · refine hfirst (String.ofList rest) (String.toList_inj.mp ?_) other hother ?_
      · rw [hstem, String.toList_append, String.toList_ofList]
      · rwa [← String.ofList_toList (s := other), ← String.ofList_append, ← hrest, String.ofList_toList]

instance (first second : MacroGroup) : Decidable (first.Apart second) :=
  decidable_of_iff (∀ text ∈ first.macros, text ∉ second.macros) (by
    rw [← disjoint_macros_iff]
    rfl)

theorem nodup_macros_iff {group : MacroGroup} : group.macros.Nodup ↔ group.names.Nodup :=
  List.nodup_map_iff fun name other heq => by simpa [← String.toList_inj, String.toList_append] using heq

end MacroGroup

theorem Version.map_fst_parts (version : Version) :
    version.parts.map Prod.fst = ["", "_MAJOR", "_MINOR", "_PATCH", "_SUFFIX"] := rfl

/-- The macros of the version of the header. -/
def Version.macroGroup (version : Version) : MacroGroup := ⟨headerMacro, version.parts.map Prod.fst⟩

namespace Enumeration

variable {enumeration : Enumeration}

/-- Whether a member with a value is the mark of success. -/
def isSuccess (enumeration : Enumeration) (value : Int) : Bool := enumeration.name = errorCodes && value = 0

/-- The marks of success, whose macros have no prefix of their own, and the other members. -/
def macroGroups (enumeration : Enumeration) : List MacroGroup :=
  let successes := enumeration.values.filter fun entry => enumeration.isSuccess entry.2
  let others := enumeration.values.filter fun entry => !enumeration.isSuccess entry.2
  [⟨apiPrefix, successes.map fun entry => entry.1.name⟩,
    ⟨apiPrefix ++ enumeration.macroPrefix ++ "_", others.map fun entry => entry.1.name⟩]

theorem perm_macros (enumeration : Enumeration) :
    (enumeration.values.map fun entry => enumeration.macroName entry.1.name entry.2).Perm
      (enumeration.macroGroups.flatMap MacroGroup.macros) := by
  have hsuccesses : (enumeration.values.filter fun entry => enumeration.isSuccess entry.2).map
      (fun entry => enumeration.macroName entry.1.name entry.2)
      = (enumeration.values.filter fun entry => enumeration.isSuccess entry.2).map
        fun entry => apiPrefix ++ entry.1.name :=
    List.map_congr_left fun entry hentry => if_pos (List.mem_filter.mp hentry).2
  have hothers : (enumeration.values.filter fun entry => !enumeration.isSuccess entry.2).map
      (fun entry => enumeration.macroName entry.1.name entry.2)
      = (enumeration.values.filter fun entry => !enumeration.isSuccess entry.2).map
        fun entry => apiPrefix ++ enumeration.macroPrefix ++ "_" ++ entry.1.name :=
    List.map_congr_left fun entry hentry =>
      if_neg (Bool.eq_false_iff.mp ((Bool.not_eq_true' _).mp (List.mem_filter.mp hentry).2))
  have hsplit := (List.filter_append_perm (fun entry => enumeration.isSuccess entry.2) enumeration.values).map
    fun entry => enumeration.macroName entry.1.name entry.2
  rw [List.map_append, hsuccesses, hothers] at hsplit
  refine hsplit.symm.trans (.of_eq ?_)
  simp only [macroGroups, List.flatMap_cons, List.flatMap_nil, List.append_nil, MacroGroup.macros, List.map_map]
  rfl

theorem Sound.nodup_names_of_mem_macroGroups (h : enumeration.Sound) :
    ∀ group ∈ enumeration.macroGroups, group.names.Nodup := by
  have hnames : (enumeration.values.map fun entry => entry.1.name).Nodup := by
    have hnodup := h.member_names_nodup
    rwa [← values_map_fst, List.map_map] at hnodup
  have hfiltered (p : Member × Int → Bool) : ((enumeration.values.filter p).map fun entry => entry.1.name).Nodup :=
    (List.filter_sublist.map _).nodup hnames
  intro group hgroup
  rcases List.mem_pair.mp hgroup with rfl | rfl
  · exact hfiltered _
  · exact hfiltered _

end Enumeration

def FlagSet.macroGroup (set : FlagSet) : MacroGroup :=
  ⟨apiPrefix ++ set.macroPrefix ++ "_", set.flags.map Flag.name⟩

namespace Interface

variable {file source : String} {interface : Interface} {sources : Sources} {edits : List Edit}

/-- The macros of the header in groups that start alike. -/
def macroGroups (interface : Interface) : List MacroGroup :=
  interface.version.macroGroup :: ⟨apiPrefix ++ "CONST_", interface.constants.map Constant.name⟩
    :: interface.enumerations.flatMap Enumeration.macroGroups ++ interface.flagSets.map FlagSet.macroGroup

/-- The names of the macros that the header defines, in order. -/
def macroNames (interface : Interface) : List String :=
  interface.version.headerDefines.map Define.name ++ interface.constants.map Constant.macroName
    ++ interface.memberDefines.flatten.map Define.name ++ interface.flagDefines.flatten.map Define.name

theorem perm_macroNames (interface : Interface) :
    interface.macroNames.Perm (interface.macroGroups.flatMap MacroGroup.macros) := by
  have hmembers : (interface.memberDefines.flatten.map Define.name).Perm
      ((interface.enumerations.flatMap Enumeration.macroGroups).flatMap MacroGroup.macros) := by
    rw [List.map_flatten, memberDefines, List.map_map, ← List.flatMap_def, List.flatMap_assoc]
    refine List.Perm.flatMap_left _ fun enumeration _ => ?_
    rw [Function.comp_apply, List.map_map]
    exact enumeration.perm_macros
  have hflags : interface.flagDefines.flatten.map Define.name
      = (interface.flagSets.map FlagSet.macroGroup).flatMap MacroGroup.macros := by
    rw [List.map_flatten, flagDefines, List.map_map, ← List.flatMap_def, List.flatMap_map]
    refine List.flatMap_congr fun set _ => ?_
    simp only [Function.comp_apply, List.map_map, MacroGroup.macros, FlagSet.macroGroup]
    rfl
  have hversion : interface.version.headerDefines.map Define.name = interface.version.macroGroup.macros := by
    simp only [Version.headerDefines, MacroGroup.macros, Version.macroGroup, List.map_map]
    rfl
  have hconstants : interface.constants.map Constant.macroName
      = MacroGroup.macros ⟨apiPrefix ++ "CONST_", interface.constants.map Constant.name⟩ := by
    simp only [MacroGroup.macros, List.map_map]
    rfl
  rw [macroNames, macroGroups, hversion, hconstants, hflags, List.cons_append, List.cons_append, List.flatMap_cons,
    List.flatMap_cons, List.flatMap_append, List.append_assoc, List.append_assoc]
  exact ((hmembers.append_right _).append_left _).append_left _

theorem Sound.nodup_names_of_mem_macroGroups (h : interface.Sound) :
    ∀ group ∈ interface.macroGroups, group.names.Nodup := by
  intro group hgroup
  rcases List.mem_append.mp hgroup with hgroup | hgroup
  · rcases List.mem_cons.mp hgroup with rfl | hgroup
    · rw [Version.macroGroup, Version.map_fst_parts]
      decide
    · rcases List.mem_cons.mp hgroup with rfl | hgroup
      · exact h.constant_names_nodup
      · obtain ⟨enumeration, henumeration, hgroup⟩ := List.mem_flatMap.mp hgroup
        exact (h.enumerations enumeration henumeration).nodup_names_of_mem_macroGroups group hgroup
  · obtain ⟨set, hset, rfl⟩ := List.mem_map.mp hgroup
    exact (h.flagSets set hset).flag_names_nodup

/-- No macro is defined twice exactly if no group goes on from another one to one of its names. -/
theorem Sound.nodup_macroNames_iff (h : interface.Sound) :
    interface.macroNames.Nodup ↔ interface.macroGroups.Pairwise MacroGroup.Apart := by
  have hnodup : ∀ group ∈ interface.macroGroups, group.macros.Nodup := fun group hgroup =>
    MacroGroup.nodup_macros_iff.mpr (h.nodup_names_of_mem_macroGroups group hgroup)
  rw [interface.perm_macroNames.nodup_iff, List.nodup_flatMap, and_iff_right hnodup]
  exact List.Pairwise.iff fun _ _ => MacroGroup.disjoint_macros_iff

/-! ## The header -/

theorem isNamed_of_mem_version (version : Version) : ∀ define ∈ version.headerDefines, define.IsNamed := by
  have hnames : version.headerDefines.map Define.name
      = (version.parts.map Prod.fst).map fun ending => Version.headerMacro ++ ending := by
    rw [Version.headerDefines, List.map_map, List.map_map]
    rfl
  have hall : ∀ name ∈ version.headerDefines.map Define.name, Nominal name ∧ name.toList ≠ [] := by
    rw [hnames, Version.map_fst_parts]
    decide
  intro define hdefine
  obtain ⟨hname, hsome⟩ := hall define.name (List.mem_map_of_mem hdefine)
  exact ⟨hname, hsome⟩

theorem isNamed_of_mem_memberDefines (h : interface.Sound) :
    ∀ group ∈ interface.memberDefines, ∀ define ∈ group, define.IsNamed := by
  intro group hgroup define hdefine
  obtain ⟨enumeration, henumeration, rfl⟩ := List.mem_map.mp hgroup
  obtain ⟨entry, hentry, rfl⟩ := List.mem_map.mp hdefine
  have hnamed := (h.enumerations enumeration henumeration).named
  exact ⟨hnamed.macroName (hnamed.of_mem_values hentry) entry.2, Enumeration.macroName_ne_empty _ _ _⟩

theorem isNamed_of_mem_flagDefines (h : interface.Sound) :
    ∀ group ∈ interface.flagDefines, ∀ define ∈ group, define.IsNamed := by
  intro group hgroup define hdefine
  obtain ⟨set, hset, rfl⟩ := List.mem_map.mp hgroup
  obtain ⟨flag, hflag, rfl⟩ := List.mem_map.mp hdefine
  have hset := h.flagSets set hset
  have hlead : Nominal (apiPrefix ++ set.macroPrefix ++ "_") :=
    nominal_append.mpr ⟨nominal_append.mpr ⟨by decide, hset.nominal_macroPrefix⟩, by decide⟩
  refine ⟨nominal_append.mpr ⟨hlead, nominal_of_isValid (hset.flags flag hflag).name_valid⟩, ?_⟩
  simp [FlagSet.define, FlagSet.macroName, apiPrefix, String.toList_append]

/-- Declarations of functions define no macros. -/
theorem macroName?_headerLine {function : Function} {line : String}
    (h : function.headerLine interface.types = .ok line) : macroName? line = none := by
  obtain ⟨signature, -, heq⟩ := except_bind_eq_ok_iff.mp h
  cases heq
  have hmark : Graphic "YOGI_API" := by decide
  have htail : BlankFirst (" " ++ (signature ++ ";")) := blankFirst_of_ne (by simp) (by decide)
  have hnone := macroName?_eq_none (by simp) hmark (by simp) htail
  rwa [← String.append_assoc, ← String.append_assoc] at hnone

theorem Sound.macroNames_of_emit (h : interface.Sound)
    (hemit : Target.core.emitter.emit interface sources = .ok edits) :
    ((List.range 5).flatMap (linesOf edits "yogi-core/include/yogi_core.h")).filterMap macroName?
      = interface.macroNames := by
  obtain ⟨blocks, hblocks, hlines⟩ := Target.core_headerBlocks hemit
  obtain ⟨functions, hfunctions, hblocks⟩ := except_bind_eq_ok_iff.mp hblocks
  cases hblocks
  have hconstants : ∀ constant ∈ interface.constants, Nominal constant.name :=
    fun constant hconstant => nominal_of_isValid (h.constants constant hconstant).name_valid
  have hmembers : (Enumeration.headerLines interface).filterMap macroName?
      = interface.memberDefines.flatten.map Define.name := by
    have hlines : Enumeration.headerLines interface = separate (interface.memberDefines.map Define.lines) := by
      rw [memberDefines, List.map_map]
      rfl
    rw [hlines, Define.filterMap_macroName?_separate (isNamed_of_mem_memberDefines h)]
  have hflags : (FlagSet.headerLines interface).filterMap macroName?
      = interface.flagDefines.flatten.map Define.name := by
    have hlines : FlagSet.headerLines interface = separate (interface.flagDefines.map Define.lines) := by
      rw [flagDefines, List.map_map]
      rfl
    rw [hlines, Define.filterMap_macroName?_separate (isNamed_of_mem_flagDefines h)]
  have hfunctions : functions.filterMap macroName? = [] := List.filterMap_eq_nil_iff.mpr
    (forall_mem_of_mapM hfunctions fun _ _ _ => macroName?_headerLine)
  have hrange : List.range 5 = [0, 1, 2, 3, 4] := rfl
  rw [hrange]
  simp only [List.flatMap_cons, List.flatMap_nil, List.append_nil, List.filterMap_append, hlines]
  dsimp only [List.getElem?_cons_zero, List.getElem?_cons_succ, Option.getD_some]
  rw [Define.filterMap_macroName?_lines (isNamed_of_mem_version _),
    Constant.filterMap_macroName?_idLines hconstants, hmembers, hflags, hfunctions, List.append_nil, macroNames,
    List.append_assoc, List.append_assoc]

/-- The macros that the header defines have different names exactly if no group of them goes on from another one
to one of its names. -/
theorem header_macros_nodup_iff (hload : load file source = .ok interface)
    (hemit : Target.core.emitter.emit interface sources = .ok edits) :
    (((List.range 5).flatMap (linesOf edits "yogi-core/include/yogi_core.h")).filterMap macroName?).Nodup ↔
      interface.macroGroups.Pairwise MacroGroup.Apart := by
  have hsound := (load_sound hload).1
  rw [hsound.macroNames_of_emit hemit, hsound.nodup_macroNames_iff]

end Interface

namespace Sample

/-- A description whose macros are different though some of their groups start alike. -/
def apartMacros : String :=
"copyright = \"\"

[version]
major = 1
minor = 2
patch = 3

[constants.PORT]
value = 1
type = [\"int\", \"int\", \"int\", \"c_int\"]

[functions]

[enums.error_code]
OK = \"Fine.\"
TIMEOUT = \"Late.\"

[enums.err]
LOST = \"Gone.\"

[flags.err_flags]
TIMEOUT = \x7b bit = 0 \x7d

[type_mappings]
"

/-- The groups of its macros behind those of the version. -/
def apartGroups : List MacroGroup :=
  [⟨"YOGI_CONST_", ["PORT"]⟩, ⟨"YOGI_", ["OK"]⟩, ⟨"YOGI_ERR_", ["TIMEOUT"]⟩, ⟨"YOGI_", []⟩, ⟨"YOGI_ERR_", ["LOST"]⟩,
    ⟨"YOGI_ERR_FLAGS_", ["TIMEOUT"]⟩]

set_option maxRecDepth 10000 in
theorem exists_apartMacros : ∃ (interface : Interface) (edits : Target → List Edit),
    Interface.load "core_api.toml" apartMacros = .ok interface ∧
      (∀ target : Target, target.emitter.emit interface sources = .ok (edits target)) ∧
      interface.macroGroups.drop 1 = apartGroups :=
  exists_emitted_of_described String.toList_ofList (by decide)

end Sample

namespace Interface

/-- Prefixes that are the same or go on from one another do no harm to names that do not. -/
theorem header_macros_nodup_iff_apart : ∃ (interface : Interface) (edits : Target → List Edit),
    load "core_api.toml" Sample.apartMacros = .ok interface ∧
      Target.core.emitter.emit interface Sample.sources = .ok (edits .core) ∧
      (((List.range 5).flatMap
        (linesOf (edits .core) "yogi-core/include/yogi_core.h")).filterMap macroName?).Nodup := by
  obtain ⟨interface, edits, hload, hemit, hgroups⟩ := Sample.exists_apartMacros
  refine ⟨interface, edits, hload, hemit .core, (header_macros_nodup_iff hload (hemit .core)).mpr ?_⟩
  have hcons : interface.macroGroups = interface.version.macroGroup :: interface.macroGroups.drop 1 := rfl
  rw [hcons, hgroups, Version.macroGroup, Version.map_fst_parts]
  decide

end Interface

namespace Sample

/-- A description of an enumeration with the prefix of the constants, and with a mark of success that is named
like the macro of an error. -/
def clashingMacros : String :=
"copyright = \"\"

[version]
major = 1
minor = 2
patch = 3

[constants.FOO]
value = 1
type = [\"int\", \"int\", \"int\", \"c_int\"]

[functions]

[enums.level]
prefix = \"CONST\"

[enums.level.members]
FOO = \"foo\"

[enums.error_code]
ERR_LATE = \"Fine.\"
LATE = \"Late.\"

[flags]

[type_mappings]
"

/-- The names of its macros behind those of the version. -/
def clashingNames : List String := ["YOGI_CONST_FOO", "YOGI_CONST_FOO", "YOGI_ERR_LATE", "YOGI_ERR_LATE"]

set_option maxRecDepth 10000 in
theorem exists_clashingMacros : ∃ (interface : Interface) (edits : Target → List Edit),
    Interface.load "core_api.toml" clashingMacros = .ok interface ∧
      (∀ target : Target, target.emitter.emit interface sources = .ok (edits target)) ∧
      interface.macroNames.drop 5 = clashingNames :=
  exists_emitted_of_described String.toList_ofList (by decide)

end Sample

namespace Interface

/-- A constant and a member of an enumeration with the prefix of the constants have one macro, and so have a mark
of success and an error. -/
theorem header_macros_clash : ∃ (interface : Interface) (edits : Target → List Edit),
    load "core_api.toml" Sample.clashingMacros = .ok interface ∧
      Target.core.emitter.emit interface Sample.sources = .ok (edits .core) ∧
      (((List.range 5).flatMap (linesOf (edits .core) "yogi-core/include/yogi_core.h")).filterMap macroName?).drop 5
        = Sample.clashingNames ∧
      ¬ (((List.range 5).flatMap
        (linesOf (edits .core) "yogi-core/include/yogi_core.h")).filterMap macroName?).Nodup := by
  obtain ⟨interface, edits, hload, hemit, hnames⟩ := Sample.exists_clashingMacros
  refine ⟨interface, edits, hload, hemit .core, ?_⟩
  rw [(load_sound hload).1.macroNames_of_emit (hemit .core)]
  refine ⟨hnames, fun hnodup => ?_⟩
  have hrest := (List.drop_sublist 5 _).nodup hnodup
  rw [hnames] at hrest
  revert hrest
  decide

end Interface

end Bindery
