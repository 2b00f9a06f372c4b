import Bindery.Proofs.FlagValues
import Bindery.Proofs.FreeTexts
import Bindery.Render.Constants

/-!
# Rendered lines

No line that is rendered for the version, the constants, the enumerations, the flag sets or a schema has a
marker, when none of the free texts that go into it has one.
-/

namespace Bindery

open Block Text Naming

/-! ## Versions -/

/-- A macro whose name, value and help can go into generated code. -/
structure Define.MarkerFree (define : Define) : Prop where
  name : Nominal define.name
  value : Unmarked define.value.toList
  help : Unmarked define.help.toList

namespace Define

variable {define : Define} {defines : List Define}

theorem MarkerFree.unmarked_line (h : define.MarkerFree) (width : Nat) :
    Unmarked (define.line width).toList := by
  have hdirective : Unmarked define.directive.toList :=
    (((closed_literal rfl).name h.name).literal rfl).free h.value
  simp only [Define.line]
  split
  · exact hdirective
  · exact (Unmarked.fence (unmarked_padRight width hdirective) rfl).free (unmarked_singleLine h.help)

theorem allUnmarked_lines (h : ∀ define ∈ defines, define.MarkerFree) : AllUnmarked (lines defines) :=
  allUnmarked_map.mpr fun define hdefine => (h define hdefine).unmarked_line _

end Define

theorem allUnmarked_separate : ∀ {groups : List (List String)}, (∀ group ∈ groups, AllUnmarked group) →
    AllUnmarked (separate groups)
  | [], _ => .nil
  | [group], h => h group List.mem_cons_self
  | group :: second :: rest, h => by
      obtain ⟨hgroup, hrest⟩ := List.forall_mem_cons.mp h
      exact hgroup.append (.cons (unmarked_of_not_mem List.not_mem_nil) (allUnmarked_separate hrest))

namespace Version

variable {version : Version} (h : version.MarkerFree)
include h

theorem markerFree_parts : ∀ part ∈ version.parts,
    Define.MarkerFree ⟨headerMacro ++ part.1, part.2.1, part.2.2⟩ := by
  have hpart {ending value help : String} (hending : Nominal ending) (hvalue : Closed value)
      (hhelp : Unmarked help.toList) : Define.MarkerFree ⟨headerMacro ++ ending, value, help⟩ :=
    ⟨nominal_append.mpr ⟨by decide, hending⟩, hvalue.unmarked, hhelp⟩
  have hnumber (number : Nat) : Closed (toString number) := closed_of_nominal (nominal_toString_nat number)
  simp only [parts, List.forall_mem_cons]
  exact ⟨hpart (by decide) (closed_quote h.text) (unmarked_literal rfl),
    hpart (by decide) (hnumber _) (unmarked_literal rfl),
    hpart (by decide) (hnumber _) (unmarked_literal rfl),
    hpart (by decide) (hnumber _) (unmarked_literal rfl),
    hpart (by decide) (closed_quote h) (unmarked_literal rfl), List.forall_mem_nil _⟩

theorem allUnmarked_headerDefines : AllUnmarked (Define.lines version.headerDefines) := by
  refine Define.allUnmarked_lines fun define hdefine => ?_
  obtain ⟨part, hpart, rfl⟩ := List.mem_map.mp hdefine
  exact markerFree_parts h part hpart

theorem allUnmarked_bindingLines : AllUnmarked version.bindingLines := by
  refine Listing.Unmarked.blank (Listing.Unmarked.each (Listing.unmarked_empty _) ?_)
  rintro ⟨ending, value, help⟩ hpart inner hinner
  have hdefine := markerFree_parts h _ hpart
  refine (hinner.blank.line ?_).line ?_
  · exact (((closed_literal rfl).free hdefine.help).fence rfl).unmarked
  · exact ((((closed_literal rfl).name (nominal_append.mp hdefine.name).2).literal rfl).free hdefine.value)

theorem allUnmarked_buildLines : AllUnmarked version.buildLines :=
  .cons ((closed_literal rfl).free h.text)
    (.cons ((closed_literal rfl).name (nominal_toString_nat _)).unmarked .nil)

theorem allUnmarked_mockBuildLines : AllUnmarked version.mockBuildLines :=
  .cons (((closed_literal rfl).append (closed_quote h.text)).literal rfl).unmarked .nil

theorem allUnmarked_recipeLines : AllUnmarked version.recipeLines :=
  .cons ((closed_literal rfl).append (closed_quote h.text)).unmarked .nil

theorem allUnmarked_mockReturnLines : AllUnmarked version.mockReturnLines :=
  .cons (((closed_literal rfl).append (closed_quote h.text)).literal rfl).unmarked .nil

theorem allUnmarked_cppLibraryLines : AllUnmarked version.cppLibraryLines :=
  .cons (((closed_literal rfl).append (closed_quote h.text)).literal rfl).unmarked .nil

theorem allUnmarked_csharpLibraryLines : AllUnmarked version.csharpLibraryLines :=
  .cons (((closed_literal rfl).append (closed_quote h.text)).literal rfl).unmarked .nil

theorem allUnmarked_csharpProjectLines : AllUnmarked version.csharpProjectLines :=
  .cons (((closed_literal rfl).free h.text).fence rfl).unmarked .nil

theorem allUnmarked_csharpLines : AllUnmarked version.csharpLines := by
  have hnumber (number : Nat) := nominal_toString_nat number
  refine .cons ?_ (.cons ?_ (.cons ?_ (.cons ?_ (.cons ?_ .nil))))
  · exact (((closed_literal rfl).append (closed_quote h.text)).literal rfl).unmarked
  · exact (((closed_literal rfl).name (hnumber _)).literal rfl).unmarked
  · exact (((closed_literal rfl).name (hnumber _)).literal rfl).unmarked
  · exact (((closed_literal rfl).name (hnumber _)).literal rfl).unmarked
  · exact (((closed_literal rfl).append (closed_quote h)).literal rfl).unmarked

theorem allUnmarked_pythonLibraryLines : AllUnmarked version.pythonLibraryLines :=
  .cons ((closed_literal rfl).append (closed_pythonQuoted h.text)).unmarked .nil

theorem allUnmarked_pythonLines : AllUnmarked version.pythonLines := by
  have hnumber (number : Nat) := nominal_toString_nat number
  refine .cons ?_ (.cons ?_ (.cons ?_ (.cons ?_ (.cons ?_ .nil))))
  · exact ((closed_literal rfl).append (closed_pythonQuoted h.text)).unmarked
  · exact ((closed_literal rfl).name (hnumber _)).unmarked
  · exact ((closed_literal rfl).name (hnumber _)).unmarked
  · exact ((closed_literal rfl).name (hnumber _)).unmarked
  · exact ((closed_literal rfl).append (closed_pythonQuoted h)).unmarked

end Version

/-! ## Values of constants -/

/-- The text of a number has only characters of names and points. -/
theorem Binary64.not_mem_jsonText (x : Binary64) {c : Char} (hc : isNominal c = false) (hpoint : c ≠ '.') :
    c ∉ x.jsonText.toList := by
  have hname (text : String) (h : Nominal text) : c ∉ text.toList := fun hmem => by
    rw [h c hmem] at hc
    cases hc
  have hnumber (number : Nat) : c ∉ (toString number).toList := hname _ (nominal_toString_nat number)
  have hdigits := hnumber x.shortest.digits
  have hsign : c ∉ (if x.isNegative then "-" else "").toList := by split <;> exact hname _ (by decide)
  have hzero : c ≠ '0' := fun heq => hnumber 0 (by rw [heq]; decide)
  unfold jsonText
  dsimp only
  generalize (toString x.shortest.digits).toList = digits at hdigits ⊢
  have htake (count : Nat) : c ∉ digits.take count := fun hmem => hdigits (List.mem_of_mem_take hmem)
  have hdrop (count : Nat) : c ∉ digits.drop count := fun hmem => hdigits (List.mem_of_mem_drop hmem)
  generalize (if x.isNegative then "-" else "") = sign at hsign ⊢
  split
  · exact hname _ (by decide)
  · split
    · rw [String.toList_append, List.mem_append, not_or]
      exact ⟨hsign, by simp [hzero, hpoint]⟩
    · rw [String.toList_append, String.toList_ofList, List.mem_append, not_or]
      refine ⟨hsign, ?_⟩
      split
      · split
        · simp [hdigits, hzero, hpoint]
        · simp only [List.mem_append, not_or]
          refine ⟨⟨⟨htake _, by simp [hzero]⟩, by simp [hpoint]⟩, ?_⟩
          split
          · simp [hzero]
          · exact hdrop _
      · simp only [List.mem_append, not_or]
        refine ⟨⟨⟨htake _, ?_⟩, ?_⟩, hnumber _⟩
        · split
          · exact List.not_mem_nil
          · simpa [hpoint] using hdrop 1
        · split
          · exact hname "e-" (by decide)
          · exact hname "e+" (by decide)

namespace Toml.Value

mutual

/-- The text of a value is closed: it is a number or a word, or ends with a quote or bracket. -/
theorem closed_jsonText : ∀ value : Value, AllUnmarked value.texts → Closed value.jsonText
  | .string text, h => closed_jsonQuoted (h text List.mem_cons_self)
  | .integer value, _ => closed_of_nominal (nominal_toString_int value)
  | .float value, _ => closed_of_not_mem (value.not_mem_jsonText (by decide) (by decide))
  | .boolean true, _ => closed_literal rfl
  | .boolean false, _ => closed_literal rfl
  | .datetime value, h => closed_jsonQuoted (h value.text List.mem_cons_self)
  | .array items, h =>
      ((closed_literal rfl).free (unmarked_join (by decide) (allUnmarked_jsonItems items h))).fence rfl
  | .table entries, h =>
      ((closed_literal rfl).free (unmarked_join (by decide) (allUnmarked_jsonEntries entries h))).fence rfl

theorem allUnmarked_jsonItems : ∀ items : List Value, AllUnmarked (itemTexts items) →
    AllUnmarked (jsonItems items)
  | [], _ => .nil
  | item :: rest, h => by
      obtain ⟨hitem, hrest⟩ := allUnmarked_append.mp h
      exact .cons (closed_jsonText item hitem).unmarked (allUnmarked_jsonItems rest hrest)

theorem allUnmarked_jsonEntries : ∀ entries : List (String × Value), AllUnmarked (entryTexts entries) →
    AllUnmarked (jsonEntries entries)
  | [], _ => .nil
  | (key, value) :: rest, h => by
      obtain ⟨hkey, hothers⟩ := List.forall_mem_cons.mp h
      obtain ⟨hvalue, hrest⟩ := allUnmarked_append.mp hothers
      exact .cons (((closed_jsonQuoted hkey).literal rfl).append (closed_jsonText value hvalue)).unmarked
        (allUnmarked_jsonEntries rest hrest)

end

end Toml.Value

namespace Constant.Value

variable {value : Constant.Value}

theorem allUnmarked_plainLiterals (h : AllUnmarked value.texts) : AllUnmarked value.plainLiterals := by
  cases value with
  | integer value => exact .cons (closed_of_nominal (nominal_toString_int value)).unmarked .nil
  | float value =>
      have hsign : Closed (if value.isNegative then "-" else "") := by
        split <;> exact closed_literal rfl
      refine .cons ?_ .nil
      unfold Binary64.wholeText
      split
      · exact unmarked_literal rfl
      · refine (hsign.append ?_).unmarked
        split
        · exact closed_literal rfl
        · exact closed_of_nominal (nominal_toString_nat _)
  | line text =>
      have htext := h text List.mem_cons_self
      refine .cons ?_ .nil
      split
      · exact htext
      · exact (closed_cQuoted htext).unmarked
  | lines text =>
      have htext := h text List.mem_cons_self
      refine allUnmarked_map.mpr fun line hline => ?_
      refine (((closed_literal rfl).free (unmarked_escape ?_)).fence rfl).unmarked
      rw [String.toList_ofList]
      exact htext.of_infix ((infix_of_mem_pieces hline).trans (prefix_trimEnd _).isInfix)
  | list items =>
      have hitems : Unmarked (Text.join ", " (Toml.Value.jsonItems items)).toList :=
        unmarked_join (by decide) (Toml.Value.allUnmarked_jsonItems items h)
      exact .cons (closed_cQuoted (((closed_literal rfl).free hitems).fence rfl).unmarked).unmarked .nil

theorem allUnmarked_literals (h : AllUnmarked value.texts) (type : String) :
    AllUnmarked (value.literals type) := by
  have hparts := allUnmarked_plainLiterals h
  simp only [literals]
  split
  · exact hparts.modify _ fun text htext => by
      rw [String.toList_append]
      exact (unmarked_append_right (by decide)).mpr htext
  · exact hparts

end Constant.Value

/-! ## Constants -/

namespace Constant

variable {constant : Constant} {interface : Interface}

theorem MarkerFree.macroName (h : constant.MarkerFree) : Nominal constant.macroName :=
  nominal_macroName h.name

theorem MarkerFree.variableName (h : constant.MarkerFree) : Nominal constant.variableName :=
  nominal_variableName h.name

theorem MarkerFree.definition {lines : List String} (h : constant.MarkerFree)
    (hlines : constant.definition = .ok lines) : AllUnmarked lines := by
  obtain ⟨type, htype, hlines⟩ := except_bind_eq_ok_iff.mp hlines
  have hliterals := Value.allUnmarked_literals h.value type
  have hdeclaration : Closed (type ++ " const " ++ constant.variableName ++ " =") :=
    ((Unmarked.fence (h.typeIn htype) rfl).name h.variableName).literal rfl
  dsimp only at hlines
  split at hlines
  next literal hliteral =>
    cases hlines
    rw [hliteral] at hliterals
    refine .cons ?_ .nil
    exact (((hdeclaration.literal rfl).free (hliterals literal List.mem_cons_self)).fence rfl).unmarked
  next =>
    cases hlines
    refine .cons hdeclaration.unmarked (AllUnmarked.modify ?_ _ fun text htext => ?_)
    · exact allUnmarked_map.mpr fun literal hliteral => (closed_literal rfl).free (hliterals literal hliteral)
    · exact (Unmarked.fence htext rfl).unmarked

theorem MarkerFree.readingCase {line : String} (h : constant.MarkerFree)
    (hline : constant.readingCase = .ok line) : Unmarked line.toList := by
  obtain ⟨type, htype, hline⟩ := except_bind_eq_ok_iff.mp hline
  cases hline
  refine Closed.free ?_ ?_
  · exact ((((((closed_literal rfl).name h.macroName).literal rfl).free (h.typeIn htype)).fence rfl).name
      h.variableName).literal rfl
  · split
    · exact unmarked_literal rfl
    · exact unmarked_literal rfl

theorem MarkerFree.comparison (h : constant.MarkerFree) : Unmarked constant.comparison.toList :=
  (((((closed_literal rfl).name h.macroName).literal rfl).name h.variableName).literal rfl).unmarked

theorem closed_mockValue {version : Version} (h : version.MarkerFree) (constant : Constant)
    (type : String) : Closed (mockValue version constant type) := by
  have hnumber (number : Nat) : Closed (toString number) := closed_of_nominal (nominal_toString_nat number)
  unfold mockValue
  repeat' split
  · exact Version.closed_quote h.text
  · exact hnumber _
  · exact hnumber _
  · exact hnumber _
  · exact Version.closed_quote h
  · exact Version.closed_quote (unmarked_literal rfl)
  · exact closed_literal rfl
  · exact closed_literal rfl
  · exact closed_literal rfl

theorem MarkerFree.mockCase {version : Version} {line : String} (h : constant.MarkerFree)
    (hversion : version.MarkerFree) (hline : constant.mockCase version = .ok line) :
    Unmarked line.toList := by
  obtain ⟨type, htype, hline⟩ := except_bind_eq_ok_iff.mp hline
  cases hline
  exact (((((((closed_literal rfl).name h.macroName).literal rfl).free (h.typeIn htype)).fence rfl).append
    (closed_mockValue hversion constant type)).literal rfl).unmarked

theorem allUnmarked_idLines (h : ∀ constant ∈ interface.constants, constant.MarkerFree) :
    AllUnmarked (idLines interface) := by
  refine Listing.Unmarked.each (Listing.unmarked_empty _) ?_
  rintro ⟨constant, position⟩ hentry inner hinner
  have hconstant := h constant (List.fst_mem_of_mem_zipIdx hentry)
  refine ((hinner.when _ fun _ => Listing.Unmarked.blank).doc (by decide) hconstant.help).line ?_
  exact ((((closed_literal rfl).name hconstant.macroName).literal rfl).name
    (nominal_toString_nat (position + 1))).unmarked

theorem allUnmarked_definitions {lines : List String}
    (h : ∀ constant ∈ interface.constants, constant.MarkerFree)
    (hlines : definitions interface = .ok lines) : AllUnmarked lines := by
  obtain ⟨groups, hgroups, hlines⟩ := except_bind_eq_ok_iff.mp hlines
  cases hlines
  exact allUnmarked_flatten (forall_mem_of_mapM hgroups fun constant hmem _ =>
    (h constant hmem).definition)

/-- A row of which all columns can go into generated code; no marker goes on at the start of the name. -/
structure Row.MarkerFree (row : Row) : Prop where
  name : Nominal row.name
  start : row.name.toList.head? = some 'k'
  c : Unmarked row.c.toList
  cpp : Unmarked row.cpp.toList
  help : Unmarked row.help.toList

theorem MarkerFree.row {row : Row} (h : constant.MarkerFree) (hrow : constant.row = .ok row) :
    row.MarkerFree := by
  obtain ⟨c, hc, hrow⟩ := except_bind_eq_ok_iff.mp hrow
  obtain ⟨cpp, hcpp, hrow⟩ := except_bind_eq_ok_iff.mp hrow
  cases hrow
  refine ⟨h.variableName, ?_, h.typeIn hc, h.typeIn hcpp, unmarked_singleLine h.help⟩
  rw [Constant.variableName, kName, String.toList_append]
  rfl

theorem allUnmarked_cppBlocks {blocks : List (List String)}
    (h : ∀ constant ∈ interface.constants, constant.MarkerFree)
    (hblocks : cppBlocks interface = .ok blocks) : ∀ block ∈ blocks, AllUnmarked block := by
  obtain ⟨rows, hrows, hblocks⟩ := except_bind_eq_ok_iff.mp hblocks
  have hfree : ∀ row ∈ rows, row.MarkerFree := forall_mem_of_mapM hrows fun constant hconstant _ =>
    (h constant hconstant).row
  cases hblocks
  refine List.forall_mem_cons.mpr ⟨allUnmarked_map.mpr fun row hrow => ?_,
    List.forall_mem_singleton.mpr (allUnmarked_map.mpr fun (row, position) hentry => ?_)⟩
  · obtain ⟨hname, -, -, hcpp, hhelp⟩ := hfree row hrow
    exact (((((closed_literal rfl).free (unmarked_padRight _ hcpp)).fence rfl).append
      (closed_padRight _ ((closed_of_nominal hname).literal rfl))).literal rfl).free hhelp
  · obtain ⟨hname, hstart, hc, hcpp, -⟩ := hfree row (List.fst_mem_of_mem_zipIdx hentry)
    have hhead (width : Nat) : (padRight width row.name).toList.head? = some 'k' := by
      simp [padRight, String.toList_append, hstart]
    have htype : Unmarked (row.cpp ++ ",").toList := (hcpp.fence rfl).unmarked
    have hcolon (width : Nat) := colon_not_mem_padRight width (colon_not_mem_of_nominal hname)
    have hid := closed_padLeft 2 (closed_of_nominal (nominal_toString_nat (position + 1)))
    exact ((((((((((closed_literal rfl).free (unmarked_padRight _ hcpp)).scoped (hhead _) (hcolon _) rfl).literal
      rfl).free (unmarked_padRight _ htype)).fence rfl).free (unmarked_padRight _ hc)).fence rfl).append
      hid).literal rfl).unmarked

theorem MarkerFree.csharpMember {lines : List String} (h : constant.MarkerFree)
    (hlines : constant.csharpMember = .ok lines) : AllUnmarked lines := by
  obtain ⟨type, htype, hlines⟩ := except_bind_eq_ok_iff.mp hlines
  cases hlines
  refine .cons (unmarked_literal rfl) (.cons ?_ (.cons ?_ .nil))
  · exact (((closed_literal rfl).free (unmarked_singleLine h.help)).fence rfl).unmarked
  · exact (((((closed_literal rfl).free (h.typeIn htype)).fence rfl).name
      (nominal_pascalCase h.name)).literal rfl).unmarked

theorem MarkerFree.csharpExtraction (h : constant.MarkerFree) (id : Nat) :
    Unmarked (constant.csharpExtraction id).toList :=
  (((((closed_literal rfl).name (nominal_pascalCase h.name)).literal rfl).name
    (nominal_toString_nat id)).literal rfl).unmarked

theorem allUnmarked_csharpBlocks {blocks : List (List String)}
    (h : ∀ constant ∈ interface.constants, constant.MarkerFree)
    (hblocks : csharpBlocks interface = .ok blocks) : ∀ block ∈ blocks, AllUnmarked block := by
  obtain ⟨members, hmembers, hblocks⟩ := except_bind_eq_ok_iff.mp hblocks
  cases hblocks
  refine List.forall_mem_cons.mpr ⟨AllUnmarked.append ?_ (.cons (unmarked_literal rfl) .nil),
    List.forall_mem_singleton.mpr (allUnmarked_map.mpr ?_)⟩
  · exact allUnmarked_flatten (forall_mem_of_mapM hmembers fun constant hmem _ =>
      (h constant hmem).csharpMember)
  · exact fun entry hentry => (h entry.1 (List.fst_mem_of_mem_zipIdx hentry)).csharpExtraction (entry.2 + 1)

theorem nominal_pythonType (ctype : String) : Nominal (pythonType ctype) := by
  unfold pythonType
  split
  · decide
  · split
    · decide
    · split <;> decide

theorem MarkerFree.pythonAttribute {id : Nat} {line : String} (h : constant.MarkerFree)
    (hline : constant.pythonAttribute id = .ok line) : Unmarked line.toList := by
  obtain ⟨ctype, hctype, hline⟩ := except_bind_eq_ok_iff.mp hline
  cases hline
  exact (((((((((closed_literal rfl).name h.name).literal rfl).name (nominal_pythonType ctype)).literal
    rfl).name (nominal_toString_nat id)).literal rfl).free (h.typeIn hctype)).fence rfl).unmarked

theorem MarkerFree.pythonRow {row : String × String × String} (h : constant.MarkerFree)
    (hrow : constant.pythonRow = .ok row) :
    Nominal row.1 ∧ Nominal row.2.1 ∧ Unmarked row.2.2.toList := by
  obtain ⟨ctype, -, hrow⟩ := except_bind_eq_ok_iff.mp hrow
  cases hrow
  exact ⟨h.name, nominal_pythonType ctype, unmarked_singleLine h.help⟩

theorem allUnmarked_pythonTable {rows : List (String × String × String)}
    (h : ∀ row ∈ rows, Nominal row.1 ∧ Nominal row.2.1 ∧ Unmarked row.2.2.toList) :
    AllUnmarked (pythonTable rows) := by
  have hbar (width : Nat) : Closed (String.ofList (List.replicate width '=')) := by
    refine closed_of_not_mem fun hmem => ?_
    rw [String.toList_ofList] at hmem
    exact absurd (List.eq_of_mem_replicate hmem) (by decide)
  have hrule (first second third : Nat) : Closed ("    " ++ String.ofList (List.replicate first '=') ++ " "
      ++ String.ofList (List.replicate second '=') ++ " " ++ String.ofList (List.replicate third '=')) :=
    (((((closed_literal rfl).append (hbar first)).literal rfl).append (hbar second)).literal rfl).append
      (hbar third)
  have hline (nameWidth typeWidth : Nat) (row : String × String × String) (hname : Nominal row.1)
      (htype : Nominal row.2.1) (hhelp : Unmarked row.2.2.toList) :
      Unmarked ("    " ++ padRight nameWidth row.1 ++ " " ++ padRight typeWidth row.2.1 ++ " "
        ++ row.2.2).toList :=
    (((((closed_literal rfl).append (closed_padRight _ (closed_of_nominal hname))).literal rfl).append
      (closed_padRight _ (closed_of_nominal htype))).literal rfl).free hhelp
  refine AllUnmarked.append (.append ?_ ?_) (.cons (hrule _ _ _).unmarked .nil)
  · refine .cons (hrule _ _ _).unmarked (.cons ?_ (.cons (hrule _ _ _).unmarked .nil))
    exact hline _ _ _ (by decide) (by decide) (unmarked_literal rfl)
  · refine allUnmarked_map.mpr fun row hrow => ?_
    obtain ⟨hname, htype, hhelp⟩ := h row hrow
    exact hline _ _ row hname htype hhelp

theorem allUnmarked_pythonBlocks {blocks : List (List String)}
    (h : ∀ constant ∈ interface.constants, constant.MarkerFree)
    (hblocks : pythonBlocks interface = .ok blocks) : ∀ block ∈ blocks, AllUnmarked block := by
  obtain ⟨attributes, hattributes, hblocks⟩ := except_bind_eq_ok_iff.mp hblocks
  obtain ⟨rows, hrows, hblocks⟩ := except_bind_eq_ok_iff.mp hblocks
  cases hblocks
  refine List.forall_mem_cons.mpr ⟨allUnmarked_pythonTable ?_, List.forall_mem_singleton.mpr ?_⟩
  · exact forall_mem_of_mapM hrows fun constant hmem _ => (h constant hmem).pythonRow
  · exact forall_mem_of_mapM hattributes fun entry hentry _ =>
      (h entry.1 (List.fst_mem_of_mem_zipIdx hentry)).pythonAttribute

end Constant

/-! ## Enumerations -/

namespace Enumeration

variable {enumeration : Enumeration} {interface : Interface}

theorem mem_members_of_mem_values {entry : Member × Int} (h : entry ∈ enumeration.values) :
    entry.1 ∈ enumeration.members := by
  rw [← values_map_fst]
  exact List.mem_map_of_mem h

theorem MarkerFree.define (h : enumeration.MarkerFree) {entry : Member × Int}
    (hentry : entry ∈ enumeration.values) : (enumeration.define entry.1 entry.2).MarkerFree :=
  ⟨h.named.macroName (h.named.of_mem_values hentry) entry.2,
    (closed_of_nominal (nominal_toString_int entry.2)).unmarked,
    h.help entry.1 (mem_members_of_mem_values hentry)⟩

theorem allUnmarked_headerLines (h : ∀ enumeration ∈ interface.enumerations, enumeration.MarkerFree) :
    AllUnmarked (headerLines interface) := by
  refine allUnmarked_separate (List.forall_mem_map.mpr fun enumeration hmem => ?_)
  refine Define.allUnmarked_lines (List.forall_mem_map.mpr fun entry hentry => ?_)
  exact (h enumeration hmem).define hentry

/-- The macros of error codes and the help texts of these can go into generated code. -/
theorem markerFree_errorMacros (h : ∀ enumeration ∈ interface.enumerations, enumeration.MarkerFree) :
    ∀ entry ∈ errorMacros interface, Nominal entry.2 ∧ Unmarked entry.1.help.toList := by
  unfold errorMacros
  split
  · exact List.forall_mem_nil _
  next enumeration hfind =>
    have henumeration := h enumeration (List.mem_of_find?_eq_some hfind)
    exact List.forall_mem_map.mpr fun entry hentry =>
      ⟨(henumeration.define hentry).name, (henumeration.define hentry).help⟩

theorem allUnmarked_errorCases (h : ∀ enumeration ∈ interface.enumerations, enumeration.MarkerFree) :
    AllUnmarked (errorCases interface) := by
  refine allUnmarked_map.mpr fun entry hentry => ?_
  obtain ⟨hname, hhelp⟩ := markerFree_errorMacros h entry hentry
  exact (((((closed_literal rfl).name hname).literal rfl).append (closed_cQuoted hhelp)).literal rfl).unmarked

theorem allUnmarked_lastErrorLines (h : ∀ enumeration ∈ interface.enumerations, enumeration.MarkerFree) :
    AllUnmarked (lastErrorLines interface) := by
  intro line hline
  obtain ⟨entry, hlast, rfl⟩ := Option.map_eq_some_iff.mp (Option.mem_toList.mp hline)
  have hname := (markerFree_errorMacros h entry (List.mem_of_getLast? hlast)).1
  exact (((closed_literal rfl).name hname).literal rfl).unmarked

/-- Nothing in the line that finds a name is an underscore. -/
theorem allUnmarked_cppCases (enumeration : Enumeration) : AllUnmarked enumeration.cppCases := by
  refine allUnmarked_map.mpr fun member _ => unmarked_of_underscore_not_mem ?_
  have hset := underscore_not_mem_pascalCase enumeration.name
  have hname := underscore_not_mem_kName member.name
  simp [padRight, String.toList_append, hset, hname]

section Members

variable (h : enumeration.MarkerFree)
include h

theorem allUnmarked_cppMembers : AllUnmarked enumeration.cppMembers := by
  refine allUnmarked_map.mpr fun entry hentry => ?_
  have hname := closed_of_nominal (nominal_kName (h.named.of_mem_values hentry))
  have hvalue := closed_padLeft 3 (closed_of_nominal (nominal_toString_int entry.2))
  have hhelp := unmarked_singleLine (h.help entry.1 (mem_members_of_mem_values hentry))
  exact (((((closed_literal rfl).append (closed_padRight _ hname)).literal rfl).append
    hvalue).literal rfl).free hhelp

theorem allUnmarked_csharpMembers : AllUnmarked enumeration.csharpMembers := by
  refine AllUnmarked.append (allUnmarked_flatMap.mpr fun entry hentry => ?_)
    (.cons (unmarked_literal rfl) .nil)
  have hname := h.named.pascalName (h.named.of_mem_values hentry)
  have hhelp := unmarked_singleLine (h.help entry.1 (mem_members_of_mem_values hentry))
  refine .cons (unmarked_literal rfl)
    (.cons (((closed_literal rfl).free hhelp).fence rfl).unmarked (.cons ?_ .nil))
  exact (((((closed_literal rfl).name hname).literal rfl).name
    (nominal_toString_int entry.2)).literal rfl).unmarked

end Members

theorem unmarked_pythonMember {name help : String} (hname : Nominal name) (value : Int)
    (hhelp : Unmarked help.toList) : Unmarked (pythonMember name value help).toList :=
  ((((((closed_literal rfl).name hname).literal rfl).name (nominal_toString_int value)).literal rfl).append
    (closed_pythonQuoted (unmarked_singleLine hhelp))).unmarked

theorem allUnmarked_pythonMembers (h : enumeration.MarkerFree) : AllUnmarked enumeration.pythonMembers :=
  allUnmarked_map.mpr fun entry hentry =>
    unmarked_pythonMember (h.named.constantName (h.named.of_mem_values hentry)) entry.2
      (h.help entry.1 (mem_members_of_mem_values hentry))

end Enumeration

/-! ## Flags -/

namespace Flag.Kind

variable {nameOf : String → String} {kind : Flag.Kind}

theorem closed_expression (h : ∀ name ∈ kind.names, Unmarked (nameOf name).toList) :
    Closed (kind.expression nameOf) := by
  cases kind with
  | bit bit? =>
      cases bit? with
      | none => exact closed_literal rfl
      | some position => exact ((closed_literal rfl).name (nominal_toString_nat position)).literal rfl
  | combine names =>
      exact ((closed_literal rfl).free (unmarked_join (by decide) (List.forall_mem_map.mpr h))).fence rfl

theorem unmarked_csharpExpression (kind : Flag.Kind) : Unmarked kind.csharpExpression.toList := by
  cases kind with
  | bit bit? =>
      cases bit? with
      | none => exact unmarked_literal rfl
      | some position => exact ((closed_literal rfl).name (nominal_toString_nat position)).unmarked
  | combine names =>
      exact unmarked_join (by decide) (List.forall_mem_map.mpr fun name _ =>
        unmarked_of_underscore_not_mem (underscore_not_mem_pascalCase name))

end Flag.Kind

namespace FlagSet

variable {set : FlagSet} {interface : Interface} {flag : Flag} {listing : Listing}

theorem MarkerFree.define (h : set.MarkerFree) (hflag : flag.MarkerFree) : (set.define flag).MarkerFree := by
  have hlead : Nominal (apiPrefix ++ set.macroPrefix ++ "_") :=
    nominal_append.mpr ⟨nominal_append.mpr ⟨by decide, h.macroPrefix⟩, by decide⟩
  refine ⟨nominal_append.mpr ⟨hlead, hflag.name⟩, (Flag.Kind.closed_expression ?_).unmarked, hflag.help⟩
  exact fun name hname => (closed_of_nominal hlead).free (hflag.names name hname)

theorem allUnmarked_headerLines (h : ∀ set ∈ interface.flagSets, set.MarkerFree) :
    AllUnmarked (headerLines interface) := by
  refine allUnmarked_separate (List.forall_mem_map.mpr fun set hset => ?_)
  refine Define.allUnmarked_lines (List.forall_mem_map.mpr fun flag hflag => ?_)
  exact (h set hset).define ((h set hset).flags flag hflag)

theorem unmarked_cppFlag (hflag : flag.MarkerFree) (hlisting : listing.Unmarked) :
    (cppFlag listing flag).Unmarked := by
  have hnames : ∀ name ∈ flag.kind.names, Unmarked (kName name).toList := fun name _ =>
    unmarked_of_underscore_not_mem (underscore_not_mem_kName name)
  refine ((hlisting.blank.deeper.each ?_).line ?_).shallower
  · rintro text htext inner hinner
    obtain ⟨line, hline, rfl⟩ := List.mem_map.mp htext
    refine hinner.doc (by decide) ?_
    rw [String.toList_ofList]
    exact unmarked_of_mem_lines hflag.help hline
  · exact ((((closed_of_nominal (nominal_kName hflag.name)).literal rfl).append
      (Flag.Kind.closed_expression hnames)).literal rfl).unmarked

theorem unmarked_cppOperator {header body : String} (hheader : Closed header) (hbody : Unmarked body.toList)
    (hlisting : listing.Unmarked) : (cppOperator header body listing).Unmarked :=
  (hlisting.block (hheader.literal rfl).unmarked (unmarked_literal rfl)
    fun _ hinner => hinner.line hbody).blank

theorem unmarked_cppOperators {name : String} (hname : Nominal name) (hlisting : listing.Unmarked) :
    (cppOperators name listing).Unmarked := by
  have hcast {value : String} (hvalue : Closed value) :
      Unmarked ("return static_cast<" ++ name ++ ">(" ++ value ++ ");").toList :=
    (((((closed_literal rfl).name hname).literal rfl).append hvalue).literal rfl).unmarked
  have hpair {symbol : String} (hsymbol : Closed symbol) :
      Closed ("inline " ++ name ++ " operator" ++ symbol ++ "(" ++ name ++ " a, " ++ name ++ " b)") :=
    ((((((((closed_literal rfl).name hname).literal rfl).append hsymbol).literal rfl).name
      hname).literal rfl).name hname).literal rfl
  have hassignment {symbol : String} (hsymbol : Closed symbol) :
      Closed ("inline " ++ name ++ "& operator" ++ symbol ++ "(" ++ name ++ "& a, " ++ name ++ " b)") :=
    ((((((((closed_literal rfl).name hname).literal rfl).append hsymbol).literal rfl).name
      hname).literal rfl).name hname).literal rfl
  have hinverse : Closed ("inline " ++ name ++ " operator~(" ++ name ++ " flags)") :=
    ((((closed_literal rfl).name hname).literal rfl).name hname).literal rfl
  unfold cppOperators
  exact unmarked_cppOperator (hassignment (closed_literal rfl)) (unmarked_literal rfl)
    (unmarked_cppOperator (hassignment (closed_literal rfl)) (unmarked_literal rfl)
      (unmarked_cppOperator (hpair (closed_literal rfl)) (hcast (closed_literal rfl))
        (unmarked_cppOperator (hpair (closed_literal rfl)) (hcast (closed_literal rfl))
          (unmarked_cppOperator hinverse (hcast (closed_literal rfl)) hlisting))))

/-- No line that lists a flag has an underscore. -/
theorem unmarked_cppListing {name flag : String} (hname : '_' ∉ name.toList) (hflag : '_' ∉ flag.toList)
    (hlisting : listing.Unmarked) : (cppListing name flag listing).Unmarked := by
  refine hlisting.blank.block ?_ (unmarked_literal rfl) fun inner hinner => (hinner.line ?_).line ?_
  · exact unmarked_of_underscore_not_mem (by simp [String.toList_append, hname, hflag])
  · exact unmarked_of_underscore_not_mem (by simp [String.toList_append, hname, hflag])
  · exact unmarked_of_underscore_not_mem (by simp [String.toList_append, hflag])

theorem unmarked_cppText (set : FlagSet) {name : String} (hname : Nominal name)
    (hunderscore : '_' ∉ name.toList) (hlisting : listing.Unmarked) :
    (cppText set name listing).Unmarked := by
  have hheader : Unmarked ("inline std::string to_string<" ++ name ++ ">(" ++ name ++ " flags) \x7b").toList :=
    (((((closed_literal rfl).name hname).literal rfl).name hname).literal rfl).unmarked
  refine (hlisting.line (unmarked_literal rfl)).block hheader (unmarked_literal rfl) fun inner hinner => ?_
  refine (((hinner.line (unmarked_literal rfl)).each fun flag hflag next hnext => ?_).blank).line
    (unmarked_literal rfl)
  refine unmarked_cppListing hunderscore ?_ hnext
  simp only [listedNames, List.mem_reverse, List.mem_filter, List.mem_map] at hflag
  obtain ⟨⟨listed, -, rfl⟩, -⟩ := hflag
  exact underscore_not_mem_kName listed.name

theorem MarkerFree.cppLines (h : set.MarkerFree) : AllUnmarked set.cppLines := by
  have hmembers : (((Listing.empty .narrow).each set.flags cppFlag).line "\x7d;").blank.Unmarked :=
    ((Listing.Unmarked.each (Listing.unmarked_empty _) fun flag hflag _ hinner =>
      unmarked_cppFlag (h.flags flag hflag) hinner).line (unmarked_literal rfl)).blank
  have hname := nominal_pascalCase h.name
  exact (unmarked_cppText set hname (underscore_not_mem_pascalCase set.name)
    (unmarked_cppOperators hname hmembers)).blank

theorem allUnmarked_csharpSummary {help : String} (h : Unmarked help.toList) :
    AllUnmarked (csharpSummary help) := by
  have htrimmed : Unmarked (trimEnd help.toList) := h.of_infix (prefix_trimEnd _).isInfix
  unfold csharpSummary
  dsimp only
  split
  · refine .cons (unmarked_literal rfl) (.append (allUnmarked_map.mpr fun line hline => ?_)
      (.cons (unmarked_literal rfl) .nil))
    have hline : Unmarked ("        /// ".toList ++ line) :=
      (unmarked_append_left (by decide)).mpr (unmarked_of_mem_lines htrimmed hline)
    rw [String.toList_ofList]
    exact hline.of_infix (prefix_trimEnd _).isInfix
  · refine .cons (((closed_literal rfl).free ?_).fence rfl).unmarked .nil
    rwa [String.toList_ofList]

theorem MarkerFree.csharpLines (h : set.MarkerFree) : AllUnmarked set.csharpLines := by
  refine AllUnmarked.append (allUnmarked_flatMap.mpr fun flag hflag => ?_) (.cons (unmarked_literal rfl) .nil)
  have hfree := h.flags flag hflag
  refine AllUnmarked.append (.cons (unmarked_literal rfl) (allUnmarked_csharpSummary hfree.help))
    (.cons ?_ .nil)
  exact (((((closed_literal rfl).name (nominal_pascalCase hfree.name)).literal rfl).free
    flag.kind.unmarked_csharpExpression).fence rfl).unmarked

theorem MarkerFree.pythonLines {lines : List String} (h : set.MarkerFree)
    (hlines : set.pythonLines = .ok lines) : AllUnmarked lines := by
  obtain ⟨values, hvalues, hlines⟩ := except_bind_eq_ok_iff.mp hlines
  cases hlines
  refine allUnmarked_map.mpr fun entry hentry => ?_
  have hmem : entry.1 ∈ set.flags := map_fst_of_valuesFrom hvalues ▸ List.mem_map_of_mem hentry
  have hfree := h.flags entry.1 hmem
  exact Enumeration.unmarked_pythonMember (nominal_constantCase hfree.name) entry.2 hfree.help

end FlagSet

/-! ## Schemas -/

namespace Schema

variable {schemas : List Schema} {schema : Schema}

theorem unmarked_macroName (h : AllUnmarked schema.texts) : Unmarked schema.macroName.toList := by
  have hlabel := h _ List.mem_cons_self
  rw [String.toList_append] at hlabel
  exact (closed_literal rfl).free (hlabel.of_infix (List.prefix_append _ _).isInfix)

theorem allUnmarked_declarations (h : ∀ schema ∈ schemas, AllUnmarked schema.texts) :
    AllUnmarked (declarations schemas) := by
  refine allUnmarked_map.mpr fun schema hschema => ?_
  have hdeclaration : Unmarked ("extern const char " ++ schema.variableName ++ "[];").toList :=
    unmarked_of_underscore_not_mem
      (by simp [String.toList_append, variableName, underscore_not_mem_kName schema.name])
  exact (Unmarked.fence (unmarked_padRight _ hdeclaration) rfl).free (unmarked_macroName (h schema hschema))

/-- Behind the label, with its colon, stands no underscore. -/
theorem allUnmarked_cases (h : ∀ schema ∈ schemas, AllUnmarked schema.texts) :
    AllUnmarked (cases schemas) := by
  refine allUnmarked_map.mpr fun schema hschema => ?_
  have hlabel : Unmarked ("    case YOGI_SCM_" ++ (constantCase schema.name ++ ":")).toList :=
    (closed_literal rfl).free (h schema hschema _ List.mem_cons_self)
  have hreturn : Unmarked ("return schemas::" ++ schema.variableName ++ ";").toList :=
    unmarked_of_underscore_not_mem
      (by simp [String.toList_append, variableName, underscore_not_mem_kName schema.name])
  have hline : ("    case " ++ schema.macroName ++ ": return schemas::" ++ schema.variableName ++ ";").toList
      = ("    case YOGI_SCM_" ++ (constantCase schema.name ++ ":")).toList
        ++ ' ' :: ("return schemas::" ++ schema.variableName ++ ";").toList := by
    simp [String.toList_append, macroName]
  rw [hline, unmarked_append_cons (by decide)]
  exact ⟨hlabel, hreturn⟩

theorem unmarked_definition (h : AllUnmarked schema.texts) : Unmarked schema.definition.toList := by
  have hdeclaration : Unmarked ("const char " ++ schema.variableName).toList :=
    unmarked_of_underscore_not_mem
      (by simp [String.toList_append, variableName, underscore_not_mem_kName schema.name])
  have hcontent := h schema.content (List.mem_cons_of_mem _ List.mem_cons_self)
  exact ((((Unmarked.fence hdeclaration rfl).free hcontent).fence rfl)).unmarked

theorem allUnmarked_definitions (h : ∀ schema ∈ schemas, AllUnmarked schema.texts) :
    AllUnmarked (definitions schemas) := by
  refine allUnmarked_flatMap.mpr fun schema hschema => ?_
  have hfree := h schema hschema
  refine .cons (unmarked_literal rfl) (.cons ((closed_literal rfl).free (unmarked_macroName hfree)) ?_)
  refine allUnmarked_map.mpr fun line hline => ?_
  rw [String.toList_ofList]
  exact unmarked_of_mem_lines (unmarked_definition hfree) hline

end Schema

end Bindery
