import Bindery.Proofs.Blocks
import Bindery.Proofs.Declarations
import Bindery.Proofs.Loading
import Bindery.Proofs.Lookups

/-!
# Lines of constants

What the lines that the targets emit for a constant are read back as: the macro of its id, its variable,
and the id that the bindings ask the core library for.
-/

namespace Bindery

open Text Naming Declaration

theorem toString_nat_ne_empty (number : Nat) : (toString number).toList ≠ [] := by
  have hlist : (toString number).toList = Nat.toDigits 10 number := Nat.toList_repr
  rw [hlist]
  exact Nat.toDigits_ne_nil

theorem toString_int_ne_empty (number : Int) : (toString number).toList ≠ [] := by
  cases number with
  | ofNat number => exact toString_nat_ne_empty number
  | negSucc number =>
      have hsign : toString (Int.negSucc number) = "-" ++ toString (number + 1) := rfl
      rw [hsign]
      simp [String.toList_append]

theorem Define.macro?_line {define : Define} (width : Nat) (hname : Nominal define.name)
    (hsome : define.name.toList ≠ []) (hvalue : Nominal define.value)
    (hsome' : define.value.toList ≠ []) : macro? (define.line width) = some (define.name, define.value) := by
  have hread (tail : String) (htail : BlankFirst tail) :
      macro? (define.directive ++ tail) = some (define.name, define.value) :=
    macro?_define hname hsome hvalue hsome' htail
  rw [line]
  split
  · have hplain := hread "" (by decide)
    rwa [String.append_empty] at hplain
  · rw [padRight, String.append_assoc, String.append_assoc]
    exact hread _ ((allBlank_replicate _).blankFirst_append
      (blankFirst_of_ne (by simp) (by decide)))

theorem Define.filterMap_macro?_lines {defines : List Define}
    (h : ∀ define ∈ defines, Nominal define.name ∧ define.name.toList ≠ [] ∧ Nominal define.value ∧
      define.value.toList ≠ []) :
    (lines defines).filterMap macro? = defines.map fun define => (define.name, define.value) := by
  apply filterMap_map_of_forall
  intro define hdefine
  obtain ⟨hname, hsome, hvalue, hsome'⟩ := h define hdefine
  exact macro?_line _ hname hsome hvalue hsome'

theorem filterMap_separate {α : Type} {read : String → Option α} (hblank : read "" = none) :
    ∀ groups : List (List String),
      (separate groups).filterMap read = groups.flatMap fun group => group.filterMap read
  | [] => rfl
  | [last] => by simp [separate]
  | group :: next :: rest => by
    have hstep : separate (group :: next :: rest) = group ++ "" :: separate (next :: rest) := rfl
    rw [hstep, List.filterMap_append, List.filterMap_cons_none hblank,
      filterMap_separate hblank (next :: rest), List.flatMap_cons, List.flatMap_cons, List.flatMap_cons]

namespace Constant

variable {constant : Constant}

theorem nominal_macroName (h : Nominal constant.name) : Nominal constant.macroName :=
  nominal_append.mpr ⟨by decide, h⟩

theorem macroName_eq (constant : Constant) : constant.macroName = "YOGI_CONST_" ++ constant.name := by
  have hprefix : apiPrefix ++ "CONST_" = "YOGI_CONST_" := rfl
  rw [macroName, hprefix]

theorem macroName_ne_empty (constant : Constant) : constant.macroName.toList ≠ [] := by
  simp [macroName, apiPrefix, String.toList_append]

theorem nominal_variableName (h : Nominal constant.name) : Nominal constant.variableName :=
  nominal_kName h

theorem variableName_ne_empty (constant : Constant) : constant.variableName.toList ≠ [] := by
  simp [variableName, kName, String.toList_append]

/-- The lines of a constant in the header, put to those of the constants before it. -/
def addId (listing : Listing) (entry : Constant × Nat) : Listing :=
  ((listing.when (1 < entry.2) Listing.blank).doc "//!" entry.1.help).line
    ("#define " ++ entry.1.macroName ++ " " ++ toString entry.2)

theorem level_addId (listing : Listing) (entry : Constant × Nat) :
    (addId listing entry).level = listing.level := by
  unfold addId Listing.when Listing.doc
  split <;> split <;> rfl

/-- The macro is defined on the last of these lines, whatever the text before it says. -/
theorem filterMap_macro?_addId {listing : Listing} {entry : Constant × Nat}
    (hname : Nominal entry.1.name) (hlevel : listing.level = 0) :
    (addId listing entry).lines.filterMap macro?
      = listing.lines.filterMap macro? ++ [(entry.1.macroName, toString entry.2)] := by
  have hmargin (lines : List String) : Listing.margin { listing with lines } = "" := by
    simp [Listing.margin, hlevel, join]
  have hdefine : macro? ("#define " ++ entry.1.macroName ++ " " ++ toString entry.2)
      = some (entry.1.macroName, toString entry.2) := by
    have hempty : BlankFirst "" := by decide
    have hread := macro?_define (nominal_macroName hname) (macroName_ne_empty entry.1)
      (nominal_toString_nat entry.2) (toString_nat_ne_empty entry.2) hempty
    rwa [String.append_empty] at hread
  have hblank : macro? "" = none := by decide
  have hmark : macro? "//!" = none := by decide
  have hdoc : macro? ("//! " ++ entry.1.help) = none := by
    have hmark : Graphic "//!" := by decide
    have hhelp : BlankFirst (" " ++ entry.1.help) := blankFirst_of_ne (by simp) (by decide)
    have hnone := macro?_eq_none (by simp) hmark (by simp) hhelp
    rwa [← String.append_assoc] at hnone
  unfold addId Listing.when Listing.doc
  -- the number is a text here, which is not to be rewritten
  generalize toString entry.2 = id at hdefine ⊢
  split <;> split <;>
    simp [Listing.line, Listing.blank, hmargin, List.filterMap_append, hdefine, hblank, hmark, hdoc]

theorem filterMap_macro?_each {entries : List (Constant × Nat)}
    (hnames : ∀ entry ∈ entries, Nominal entry.1.name) (listing : Listing) (hlevel : listing.level = 0) :
    (listing.each entries addId).lines.filterMap macro?
      = listing.lines.filterMap macro? ++ entries.map fun entry => (entry.1.macroName, toString entry.2) := by
  induction entries generalizing listing with
  | nil => simp [Listing.each]
  | cons entry rest ih =>
      obtain ⟨hname, hrest⟩ := List.forall_mem_cons.mp hnames
      have hnext : (addId listing entry).level = 0 := (level_addId listing entry).trans hlevel
      rw [Listing.each, List.foldl_cons]
      have hstep := ih hrest (addId listing entry) hnext
      rw [Listing.each] at hstep
      rw [hstep, filterMap_macro?_addId hname hlevel, List.append_assoc, List.singleton_append,
        List.map_cons]

/-- What is added for a position is what is added for the id that goes with it. -/
theorem idLines_eq_each (interface : Interface) :
    idLines interface = ((Listing.empty .narrow).each (interface.constants.zipIdx 1) addId).lines := by
  unfold idLines Listing.each
  rw [List.zipIdx_succ, List.foldl_map]
  simp [addId]

theorem filterMap_macro?_idLines {interface : Interface}
    (hnames : ∀ constant ∈ interface.constants, Nominal constant.name) :
    (idLines interface).filterMap macro?
      = (interface.constants.zipIdx 1).map fun entry => (entry.1.macroName, toString entry.2) := by
  have hnominal : ∀ entry ∈ interface.constants.zipIdx 1, Nominal entry.1.name :=
    fun entry hentry => hnames entry.1 (List.fst_mem_of_mem_zipIdx hentry)
  have hempty : (Listing.empty .narrow).lines = [] := rfl
  rw [idLines_eq_each, filterMap_macro?_each hnominal _ rfl, hempty, List.filterMap_nil, List.nil_append]

theorem coreVariable?_definition {lines : List String} (hname : Nominal constant.name)
    (h : constant.definition = .ok lines) :
    ∃ type first rest, constant.typeIn .c = .ok type ∧ lines = first :: rest ∧
      coreVariable? type first = some constant.variableName ∧
      ∀ line ∈ rest, "    ".toList <+: line.toList := by
  obtain ⟨type, htype, h⟩ := except_bind_eq_ok_iff.mp h
  have hread (tail : String) (htail : BlankFirst tail) :
      coreVariable? type (type ++ " const " ++ constant.variableName ++ " =" ++ tail)
        = some constant.variableName :=
    coreVariable?_declare (nominal_variableName hname) (variableName_ne_empty constant) htail
  split at h
  next literal _ =>
    cases h
    refine ⟨type, _, [], htype, rfl, ?_, by simp⟩
    have hsingle := hread (" " ++ literal ++ ";")
      (blankFirst_of_ne (by simp [String.toList_append]) (blankFirst_of_ne (by simp) (by decide)))
    rwa [← String.append_assoc, ← String.append_assoc] at hsingle
  next literals _ =>
    cases h
    refine ⟨type, _, _, htype, rfl, ?_, ?_⟩
    · have halone := hread "" (by decide)
      rwa [String.append_empty] at halone
    · intro line hline
      obtain ⟨index, hindex⟩ := List.mem_iff_getElem?.mp hline
      rw [List.getElem?_modify, List.getElem?_map] at hindex
      obtain ⟨margined, hmargined, rfl⟩ := Option.map_eq_some_iff.mp hindex
      obtain ⟨literal, -, rfl⟩ := Option.map_eq_some_iff.mp hmargined
      split <;> simp [String.toList_append]

theorem readingCase_reads {line : String} (hname : Nominal constant.name)
    (h : constant.readingCase = .ok line) :
    label? line = some constant.macroName ∧ assigned? line = some constant.variableName := by
  obtain ⟨type, -, h⟩ := except_bind_eq_ok_iff.mp h
  have hline := Except.ok.inj h
  generalize hcomment : (if type = Value.longLong then " // NOLINT(google-runtime-int)" else "") = comment
    at hline
  have htail : BlankFirst comment ∧ "break;".toList ∉ Text.words comment.toList := by
    rw [← hcomment]
    split <;> exact ⟨by decide, by decide⟩
  constructor
  · have hlabel : line = "    " ++ "case " ++ constant.macroName ++ ":" ++ (" " ++ ("*static_cast<" ++ type
        ++ "*>(dest) = " ++ constant.variableName ++ "; break;" ++ comment)) := by
      rw [← hline]
      exact String.toList_inj.mp (by simp [String.toList_append])
    rw [hlabel]
    exact label?_case (by decide) (nominal_macroName hname).graphic
      (blankFirst_of_ne (by simp) (by decide))
  · have hassigned : line = "    case " ++ constant.macroName ++ ": *static_cast<" ++ type ++ "*>(dest)"
        ++ " = " ++ constant.variableName ++ "; break;" ++ comment := by
      rw [← hline]
      exact String.toList_inj.mp (by simp [String.toList_append])
    rw [hassigned]
    exact assigned?_case (nominal_variableName hname) htail.1 htail.2

theorem label?_mockCase {version : Version} {line : String} (hname : Nominal constant.name)
    (h : constant.mockCase version = .ok line) : label? line = some constant.macroName := by
  obtain ⟨type, -, h⟩ := except_bind_eq_ok_iff.mp h
  have hlabel : line = "    " ++ "case " ++ constant.macroName ++ ":" ++ (" " ++ ("*static_cast<" ++ type
      ++ "*>(dest) = " ++ mockValue version constant type ++ "; break;")) := by
    rw [← Except.ok.inj h]
    exact String.toList_inj.mp (by simp [String.toList_append])
  rw [hlabel]
  exact label?_case (by decide) (nominal_macroName hname).graphic
    (blankFirst_of_ne (by simp) (by decide))

theorem compared?_comparison (hname : Nominal constant.name) :
    compared? constant.comparison = some (constant.macroName, constant.variableName) :=
  compared?_check (nominal_macroName hname) (nominal_variableName hname)

theorem extracted?_csharpExtraction (hname : Nominal constant.name) (id : Nat) :
    extracted? (constant.csharpExtraction id) = some (pascalCase constant.name, toString id) := by
  have hid := nominal_toString_nat id
  unfold csharpExtraction
  generalize toString id = number at hid ⊢
  have hline : "           ExtractConstant(ref " ++ pascalCase constant.name ++ ", " ++ number ++ ");"
      = "           " ++ "ExtractConstant(ref " ++ pascalCase constant.name ++ ", " ++ number ++ ");" :=
    String.toList_inj.mp (by simp [String.toList_append])
  rw [hline]
  exact extracted?_call (by decide) (nominal_pascalCase hname) hid

theorem attribute?_pythonAttribute {id : Nat} {line : String} (hname : Nominal constant.name)
    (h : constant.pythonAttribute id = .ok line) :
    attribute? line = some (constant.name, toString id) := by
  obtain ⟨ctype, -, h⟩ := except_bind_eq_ok_iff.mp h
  cases h
  have htype : Nominal (pythonType ctype) ∧ (pythonType ctype).toList ≠ [] := by
    unfold pythonType
    split
    · exact ⟨by decide, by decide⟩
    split
    · exact ⟨by decide, by decide⟩
    split <;> exact ⟨by decide, by decide⟩
  exact attribute?_call hname htype.1 htype.2 (nominal_toString_nat id)

theorem row_eq_ok {row : Row} (h : constant.row = .ok row) :
    constant.typeIn .cpp = .ok row.cpp ∧ row.name = constant.variableName := by
  obtain ⟨c, -, h⟩ := except_bind_eq_ok_iff.mp h
  obtain ⟨cpp, hcpp, h⟩ := except_bind_eq_ok_iff.mp h
  cases h
  exact ⟨hcpp, rfl⟩

theorem cppVariable?_padded {type name : String} (width nameWidth : Nat) (help : String)
    (hname : Nominal name) :
    cppVariable? type ("  static const " ++ padRight width type ++ " " ++ padRight nameWidth (name ++ ";")
      ++ "  ///< " ++ help) = some name := by
  unfold padRight
  generalize hgap : String.ofList (List.replicate (width - type.length) ' ') = gap
  generalize hgap' : String.ofList (List.replicate (nameWidth - (name ++ ";").length) ' ') = gap'
  have hblank : AllBlank gap := hgap ▸ allBlank_replicate _
  have hblank' : AllBlank gap' := hgap' ▸ allBlank_replicate _
  have hline : "  static const " ++ (type ++ gap) ++ " " ++ (name ++ ";" ++ gap') ++ "  ///< " ++ help
      = "  static const " ++ type ++ (gap ++ " ") ++ name ++ ";" ++ (gap' ++ ("  ///< " ++ help)) := by
    simp only [String.append_assoc]
  rw [hline]
  refine cppVariable?_declare ?_ hname
    (hblank'.blankFirst_append (blankFirst_of_ne (by simp) (by decide)))
  intro c hc
  rw [String.toList_append] at hc
  rcases List.mem_append.mp hc with hc | hc
  · exact hblank c hc
  · exact (by decide : AllBlank " ") c hc

theorem cppConstant?_padded {type name id : String} (width nameWidth typesWidth cWidth : Nat) (c : String)
    (hname : Nominal name) (hid : Nominal id) :
    cppConstant? type ("_YOGI_WEAK_SYMBOL const " ++ padRight width type ++ " constants::"
      ++ padRight nameWidth name ++ " = detail::get_core_constant<" ++ padRight typesWidth (type ++ ",")
      ++ " " ++ padRight cWidth c ++ ">(" ++ padLeft 2 id ++ ");") = some (name, id) := by
  unfold padLeft
  generalize hgap : String.ofList (List.replicate (2 - id.length) ' ') = gap''
  have hline : "_YOGI_WEAK_SYMBOL const " ++ padRight width type ++ " constants::"
      ++ padRight nameWidth name ++ " = detail::get_core_constant<" ++ padRight typesWidth (type ++ ",")
      ++ " " ++ padRight cWidth c ++ ">(" ++ (gap'' ++ id) ++ ");"
    = "_YOGI_WEAK_SYMBOL const " ++ type ++ String.ofList (List.replicate (width - type.length) ' ')
      ++ " constants::" ++ name ++ String.ofList (List.replicate (nameWidth - name.length) ' ')
      ++ " = detail::get_core_constant<" ++ (padRight typesWidth (type ++ ",") ++ " " ++ padRight cWidth c)
      ++ ">(" ++ gap'' ++ id ++ ");" := by
    simp only [padRight, String.append_assoc]
  rw [hline]
  exact cppConstant?_read (allBlank_replicate _) hname (allBlank_replicate _)
    (hgap ▸ allBlank_replicate _) hid

/-- What holds of the entries of two lists in order holds of them also where each list counts its own. -/
theorem forall₂_zipIdx {α β : Type} {R : α → β → Prop} {items : List α} {others : List β} (start : Nat)
    (h : List.Forall₂ R items others) :
    List.Forall₂ (fun item other => R item.1 other.1 ∧ other.2 = item.2 + 1)
      (items.zipIdx start) (others.zipIdx (start + 1)) := by
  induction h generalizing start with
  | nil => exact .nil
  | cons hfirst _ ih => exact .cons ⟨hfirst, rfl⟩ (ih (start + 1))

/-- Both blocks of the C++ constants go through the constants in order. -/
theorem cppBlocks_read {interface : Interface} {blocks : List (List String)}
    (hnames : ∀ constant ∈ interface.constants, Nominal constant.name)
    (h : cppBlocks interface = .ok blocks) :
    List.Forall₂ (fun line (constant : Constant) => ∃ type, constant.typeIn .cpp = .ok type ∧
        cppVariable? type line = some constant.variableName)
      (blocks[0]?.getD []) interface.constants ∧
    List.Forall₂ (fun line (entry : Constant × Nat) => ∃ type, entry.1.typeIn .cpp = .ok type ∧
        cppConstant? type line = some (entry.1.variableName, toString entry.2))
      (blocks[1]?.getD []) (interface.constants.zipIdx 1) := by
  obtain ⟨rows, hrows, h⟩ := except_bind_eq_ok_iff.mp h
  cases h
  have hconstant := (List.forall₂_and_left _ _).mpr ⟨hnames, (forall₂_of_mapM hrows).flip⟩
  have hrow : List.Forall₂ (fun (row : Row) (constant : Constant) => Nominal constant.variableName ∧
      constant.typeIn .cpp = .ok row.cpp ∧ row.name = constant.variableName) rows interface.constants :=
    (hconstant.imp fun constant row h => ⟨nominal_variableName h.1, row_eq_ok h.2⟩).flip
  refine ⟨List.forall₂_map_left_iff.mpr (hrow.imp ?_),
    List.forall₂_map_left_iff.mpr ((forall₂_zipIdx 0 hrow).imp ?_)⟩
  · rintro row constant ⟨hnominal, htype, hname⟩
    rw [← hname] at hnominal ⊢
    exact ⟨row.cpp, htype, cppVariable?_padded _ _ _ hnominal⟩
  · rintro ⟨row, position⟩ ⟨constant, id⟩ ⟨⟨hnominal, htype, hname⟩, rfl⟩
    dsimp only at hnominal htype hname ⊢
    rw [← hname] at hnominal ⊢
    exact ⟨row.cpp, htype, cppConstant?_padded _ _ _ _ _ hnominal (nominal_toString_nat _)⟩

end Constant

end Bindery
