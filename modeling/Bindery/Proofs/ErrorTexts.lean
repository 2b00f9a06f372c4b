import Bindery.Proofs.Literals
import Bindery.Proofs.Numbering

/-!
# Texts of errors

The core library finds the text of an error by a case for each of its codes. The text of a case is the help
of the code, character by character, exactly if the help has no line feed; whatever the help is, it does not
end the literal that it stands in.
-/

namespace Bindery

open Text Naming Literal

namespace Enumeration

variable {enumeration : Enumeration} {interface : Interface} {name help : String}

/-- The case of a macro in the core library, with a literal that has the given characters between its
quotes. -/
def errorCase (name inside : String) : String := "    case " ++ name ++ ": return \"" ++ inside ++ "\";"

/-- A line is the case of a macro, on one line with the literal of its text. -/
def IsErrorCase (name help line : String) : Prop :=
  '\n' ∉ line.toList ∧ ∃ inside, line = errorCase name inside ∧ textOf? inside.toList = some help.toList

theorem lineFeed_not_mem_of_nominal (h : Nominal name) : '\n' ∉ name.toList :=
  fun hmem => absurd (h '\n' hmem) (by decide)

theorem lineFeed_mem_errorCase (hname : Nominal name) (inside : String) :
    '\n' ∈ (errorCase name inside).toList ↔ '\n' ∈ inside.toList := by
  simp [errorCase, String.toList_append, lineFeed_not_mem_of_nominal hname]

theorem isErrorCase_escape_iff (hname : Nominal name) (help : String) :
    IsErrorCase name help (errorCase name (escape help)) ↔ '\n' ∉ help.toList := by
  have hbreak : '\n' ∈ (escape help).toList ↔ '\n' ∈ help.toList := by
    rw [escape, String.toList_ofList]
    exact lineFeed_mem_flatMap_escapeChar
  constructor
  · rintro ⟨hline, -⟩ hmem
    exact hline ((lineFeed_mem_errorCase hname _).mpr (hbreak.mpr hmem))
  · intro hhelp
    refine ⟨fun hline => hhelp (hbreak.mp ((lineFeed_mem_errorCase hname _).mp hline)), escape help, rfl, ?_⟩
    exact (textOf?_escape_iff help).mpr hhelp

theorem errorCases_eq (h : interface.enumeration? errorCodes = some enumeration) :
    errorCases interface = enumeration.values.map fun entry =>
      errorCase (enumeration.macroName entry.1.name entry.2) (escape entry.1.help) := by
  unfold errorCases errorMacros
  rw [h, List.map_map]
  refine List.map_congr_left fun entry _ => ?_
  exact String.toList_inj.mp (by simp [errorCase, cQuoted, String.toList_append])

end Enumeration

namespace Interface

open Enumeration

variable {file source : String} {interface : Interface} {sources : Sources} {edits : List Edit}
  {enumeration : Enumeration}

/-- Each error code has its case, in order. Its literal goes up to the last quote of the case, and the case
is on one line and has the help of the code as its text exactly if the help has no line feed. -/
theorem error_texts_exact_iff (hload : load file source = .ok interface)
    (hemit : Target.core.emitter.emit interface sources = .ok edits)
    (hcodes : interface.enumeration? errorCodes = some enumeration) :
    enumeration.values.map Prod.fst = enumeration.members ∧
      List.Forall₂ (fun line entry =>
          (∃ inside, line = errorCase (enumeration.macroName entry.1.name entry.2) inside ∧
            quotesEscaped '"' inside.toList = true) ∧
          (IsErrorCase (enumeration.macroName entry.1.name entry.2) entry.1.help line ↔
            '\n' ∉ entry.1.help.toList))
        (linesOf edits "yogi-core/src/api/errors.cc" 0) enumeration.values := by
  have hmem : enumeration ∈ interface.enumerations := List.mem_of_find?_eq_some hcodes
  have hnamed := ((load_sound hload).1.enumerations enumeration hmem).named
  refine ⟨values_map_fst enumeration, ?_⟩
  rw [Target.core_errors hemit, errorCases_eq hcodes, List.forall₂_map_left_iff, List.forall₂_same]
  intro entry hentry
  have hname := hnamed.macroName (hnamed.of_mem_values hentry) entry.2
  refine ⟨⟨_, rfl, ?_⟩, isErrorCase_escape_iff hname entry.1.help⟩
  rw [escape, String.toList_ofList]
  exact quotesEscaped_flatMap_escapeChar _

end Interface

namespace Sample

/-- A description with an error whose text has quotes, and one whose text has two lines. -/
def errorTexts : String :=
"copyright = \"\"

[version]
major = 1
minor = 2
patch = 3

[constants]

[functions]

[enums.error_code]
OK = 'All \"good\"'
BROKEN = \"first\\nsecond\"

[flags]

[type_mappings]
"

def codes : Enumeration :=
  ⟨"error_code", .zeroAndDescending, none, [⟨"OK", "All \"good\"", none⟩, ⟨"BROKEN", "first\nsecond", none⟩]⟩

set_option maxRecDepth 10000 in
theorem exists_errorTexts : ∃ (interface : Interface) (edits : Target → List Edit),
    Interface.load "core_api.toml" errorTexts = .ok interface ∧
      (∀ target : Target, target.emitter.emit interface sources = .ok (edits target)) ∧
      interface.enumerations = [codes] :=
  exists_emitted_of_described String.toList_ofList (by decide)

end Sample

namespace Interface

open Enumeration

/-- The text with quotes is read back from its case. -/
theorem error_texts_exact_iff_quotes : ∃ (interface : Interface) (edits : Target → List Edit),
    load "core_api.toml" Sample.errorTexts = .ok interface ∧
      Target.core.emitter.emit interface Sample.sources = .ok (edits .core) ∧
      interface.enumeration? errorCodes = some Sample.codes ∧
      ∃ line, (linesOf (edits .core) "yogi-core/src/api/errors.cc" 0)[0]? = some line ∧
        IsErrorCase "YOGI_OK" "All \"good\"" line := by
  obtain ⟨interface, edits, hload, hemit, hcodes⟩ := Sample.exists_errorTexts
  have hfound : interface.enumeration? errorCodes = some Sample.codes := by
    rw [enumeration?, hcodes]
    rfl
  have hcases := (error_texts_exact_iff hload (hemit .core) hfound).2
  have hvalues : Sample.codes.values = [(⟨"OK", "All \"good\"", none⟩, 0),
      (⟨"BROKEN", "first\nsecond", none⟩, -1)] := by decide
  rw [hvalues] at hcases
  cases hlines : linesOf (edits .core) "yogi-core/src/api/errors.cc" 0 with
  | nil =>
      rw [hlines] at hcases
      cases hcases
  | cons line rest =>
      rw [hlines] at hcases
      obtain ⟨⟨-, hexact⟩, -⟩ := List.forall₂_cons.mp hcases
      exact ⟨interface, edits, hload, hemit .core, hfound, line, by rw [hlines]; rfl, hexact.mpr (by decide)⟩

/-- The case of a text with two lines has a line feed in its literal. -/
theorem error_texts_break : ∃ (interface : Interface) (edits : Target → List Edit),
    load "core_api.toml" Sample.errorTexts = .ok interface ∧
      Target.core.emitter.emit interface Sample.sources = .ok (edits .core) ∧
      interface.enumeration? errorCodes = some Sample.codes ∧
      (linesOf (edits .core) "yogi-core/src/api/errors.cc" 0)[1]?
        = some "    case YOGI_ERR_BROKEN: return \"first\nsecond\";" ∧
      ¬ IsErrorCase "YOGI_ERR_BROKEN" "first\nsecond" "    case YOGI_ERR_BROKEN: return \"first\nsecond\";" := by
  obtain ⟨interface, edits, hload, hemit, hcodes⟩ := Sample.exists_errorTexts
  have hfound : interface.enumeration? errorCodes = some Sample.codes := by
    rw [enumeration?, hcodes]
    rfl
  refine ⟨interface, edits, hload, hemit .core, hfound, ?_, fun hexact => hexact.1 (by decide)⟩
  rw [Target.core_errors (hemit .core), errorCases_eq hfound]
  decide

end Interface

end Bindery
