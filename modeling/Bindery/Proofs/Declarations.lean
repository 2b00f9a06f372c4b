import Bindery.Proofs.Words
import Bindery.Target

/-!
# Declarations in generated code

What a line of generated code declares is read back from its words: the macro that it defines, the
member that it declares, the constant that it reads, and the number that goes with it.
-/

namespace Bindery.Declaration

open Text

/-- A text of blanks only. -/
def AllBlank (text : String) : Prop := ∀ c ∈ text.toList, isBlank c = true

/-- A text that is empty or starts with a blank. -/
def BlankFirst (text : String) : Prop := ∀ c ∈ text.toList.head?, isBlank c = true

instance (text : String) : Decidable (AllBlank text) :=
  decidable_of_iff (text.toList.all isBlank = true) List.all_eq_true

instance (text : String) : Decidable (BlankFirst text) :=
  decidable_of_iff (text.toList.head?.all isBlank = true) (Option.all_eq_true _ _)

theorem allBlank_replicate (width : Nat) : AllBlank (String.ofList (List.replicate width ' ')) := by
  intro c hc
  rw [String.toList_ofList] at hc
  rw [List.eq_of_mem_replicate hc]
  decide

theorem blankFirst_of_ne {first second : String} (hsome : first.toList ≠ []) (h : BlankFirst first) :
    BlankFirst (first ++ second) := by
  obtain ⟨c, rest, hfirst⟩ := List.exists_cons_of_ne_nil hsome
  rw [BlankFirst, hfirst] at h
  rw [BlankFirst, String.toList_append, hfirst]
  exact h

theorem AllBlank.blankFirst_append {first second : String} (hfirst : AllBlank first)
    (hsecond : BlankFirst second) : BlankFirst (first ++ second) := by
  by_cases hempty : first.toList = []
  · rw [BlankFirst, String.toList_append, hempty, List.nil_append]
    exact hsecond
  · exact blankFirst_of_ne hempty fun c hc => hfirst c (List.mem_of_head? hc)

/-- The text of a word between what opens and what closes it. -/
def between? (opening closing : String) (word : List Char) : Option String :=
  let inner := (word.drop opening.length).take (word.length - opening.length - closing.length)
  if word = opening.toList ++ inner ++ closing.toList then some (String.ofList inner) else none

theorem between?_append (opening closing text : String) :
    between? opening closing (opening ++ text ++ closing).toList = some text := by
  have hinner : (((opening ++ text ++ closing).toList.drop opening.length).take
      ((opening ++ text ++ closing).toList.length - opening.length - closing.length)) = text.toList := by
    simp [String.toList_append, ← String.length_toList]
  unfold between?
  simp only [hinner]
  rw [if_pos (by simp only [String.toList_append]), String.ofList_toList]

theorem eq_append_of_between? {opening closing text : String} {word : List Char}
    (h : between? opening closing word = some text) : word = (opening ++ text ++ closing).toList := by
  unfold between? at h
  dsimp only at h
  generalize (word.drop opening.length).take (word.length - opening.length - closing.length) = inner at h
  split at h
  next hword =>
    cases h
    rw [hword, String.toList_append, String.toList_append, String.toList_ofList]
  next => cases h

theorem between?_closing (closing text : String) :
    between? "" closing (text ++ closing).toList = some text := by
  have happend := between?_append "" closing text
  rwa [String.empty_append] at happend

theorem between?_opening (opening text : String) :
    between? opening "" (opening ++ text).toList = some text := by
  have happend := between?_append opening "" text
  rwa [String.append_empty] at happend

theorem graphic_closed {text closing : String} (htext : Nominal text) (hclosing : Graphic closing) :
    Graphic (text ++ closing) :=
  graphic_append.mpr ⟨htext.graphic, hclosing⟩

/-- The macro that a line of C defines, with the first word of its value. -/
def macro? (line : String) : Option (String × String) :=
  match words line.toList with
  | directive :: name :: value :: _ =>
      if directive = "#define".toList then some (String.ofList name, String.ofList value) else none
  | _ => none

theorem macro?_define {name value tail : String} (hname : Nominal name) (hsome : name.toList ≠ [])
    (hvalue : Nominal value) (hsome' : value.toList ≠ []) (htail : BlankFirst tail) :
    macro? ("#define " ++ name ++ " " ++ value ++ tail) = some (name, value) := by
  have hline : ("#define " ++ name ++ " " ++ value ++ tail).toList
      = "#define".toList ++ ' ' :: (name.toList ++ ' ' :: (value.toList ++ tail.toList)) := by
    simp [String.toList_append]
  unfold macro?
  rw [hline, words_graphic_append_cons (by simp) (by decide) (by decide),
    words_graphic_append_cons hsome hname.graphic (by decide),
    words_graphic_append hsome' hvalue.graphic htail]
  simp

/-- A line with another first word defines no macro. -/
theorem macro?_eq_none {first tail : String} (hsome : first.toList ≠ []) (hfirst : Graphic first)
    (hne : first.toList ≠ "#define".toList) (htail : BlankFirst tail) : macro? (first ++ tail) = none := by
  unfold macro?
  rw [String.toList_append, words_graphic_append hsome hfirst htail]
  generalize words tail.toList = others
  match others with
  | name :: value :: others => exact if_neg hne
  | [] | [_] => rfl

/-- The member that a line declares, with its value. The name may be missing; a line of documentation
declares nothing. -/
def member? (line : String) : Option (String × String) :=
  match words line.toList with
  | first :: second :: rest =>
      if first = ['='] then (between? "" "," second).map ("", ·)
      else if second = ['='] ∧ first ≠ "///".toList then
        (rest.head?.bind (between? "" ",")).map (String.ofList first, ·)
      else none
  | _ => none

theorem words_declare {front name gap gap' value tail : String} (hfront : AllBlank front)
    (hgap : AllBlank gap) (hgap' : AllBlank gap') (hvalue : Nominal value) (htail : BlankFirst tail) :
    words (front ++ name ++ gap ++ " = " ++ gap' ++ value ++ "," ++ tail).toList
      = words name.toList ++ ['='] :: (value ++ ",").toList :: words tail.toList := by
  have hline : (front ++ name ++ gap ++ " = " ++ gap' ++ value ++ "," ++ tail).toList
      = front.toList ++ ((name.toList ++ gap.toList) ++ ' ' :: (['='] ++ ' ' ::
        (gap'.toList ++ ((value ++ ",").toList ++ tail.toList)))) := by
    simp [String.toList_append]
  have hcomma : Graphic (value ++ ",") := graphic_closed hvalue (by decide)
  rw [hline, words_blanks_append hfront, words_append_cons (by decide), words_append_blanks hgap,
    words_append_of_head? (by simp) (by simp [isBlank]) (by simp [isBlank]), words_cons (by decide),
    words_blanks_append hgap', words_graphic_append (by simp [String.toList_append]) hcomma htail]

theorem member?_declare {front name gap gap' value tail : String} (hfront : AllBlank front)
    (hname : Nominal name) (hgap : AllBlank gap) (hgap' : AllBlank gap') (hvalue : Nominal value)
    (htail : BlankFirst tail) :
    member? (front ++ name ++ gap ++ " = " ++ gap' ++ value ++ "," ++ tail) = some (name, value) := by
  unfold member?
  rw [words_declare hfront hgap hgap' hvalue htail]
  by_cases hempty : name.toList = []
  · obtain rfl : name = "" := String.toList_eq_nil_iff.mp hempty
    rw [hempty, words_nil, List.nil_append]
    simp only [if_true, between?_closing, Option.map_some]
  · have hequals : name.toList ≠ ['='] := by
      intro heq
      exact absurd (hname '=' (heq ▸ List.mem_cons_self)) (by decide)
    have hdoc : name.toList ≠ "///".toList := by
      intro heq
      exact absurd (hname '/' (heq ▸ by simp)) (by decide)
    rw [words_graphic hempty hname.graphic, List.singleton_append]
    simp only [if_neg hequals, true_and, if_pos hdoc, List.head?_cons, Option.bind_some, between?_closing,
      Option.map_some, String.ofList_toList]

theorem member?_documentation {front text : String} (hfront : AllBlank front) :
    member? (front ++ "/// " ++ text) = none := by
  have hline : (front ++ "/// " ++ text).toList
      = front.toList ++ ("///".toList ++ ' ' :: text.toList) := by
    simp [String.toList_append]
  have hne : "///".toList ≠ ['='] := by simp
  unfold member?
  rw [hline, words_blanks_append hfront,
    words_graphic_append_cons (by simp) (by decide) (by decide)]
  generalize words text.toList = others
  match others with
  | second :: others =>
      dsimp only
      rw [if_neg hne, if_neg (by simp)]
  | [] => rfl

/-- The name that stands as the label of a case. -/
def label? (line : String) : Option String :=
  match words line.toList with
  | keyword :: label :: _ => if keyword = "case".toList then between? "" ":" label else none
  | _ => none

theorem label?_case {front name tail : String} (hfront : AllBlank front) (hname : Graphic name)
    (htail : BlankFirst tail) : label? (front ++ "case " ++ name ++ ":" ++ tail) = some name := by
  have hline : (front ++ "case " ++ name ++ ":" ++ tail).toList
      = front.toList ++ ("case".toList ++ ' ' :: ((name ++ ":").toList ++ tail.toList)) := by
    simp [String.toList_append]
  have hlabel : Graphic (name ++ ":") := graphic_append.mpr ⟨hname, by decide⟩
  unfold label?
  rw [hline, words_blanks_append hfront,
    words_graphic_append_cons (by simp) (by decide) (by decide),
    words_graphic_append (by simp [String.toList_append]) hlabel htail]
  simp only [if_true, between?_closing]

/-- The variable whose value a case assigns before it breaks. -/
def assigned? (line : String) : Option String :=
  match (words line.toList).reverse.dropWhile (· ≠ "break;".toList) with
  | _ :: variableName :: _ => between? "" ";" variableName
  | _ => none

theorem assigned?_case {front variableName tail : String} (hname : Nominal variableName)
    (htail : BlankFirst tail) (hbreak : "break;".toList ∉ words tail.toList) :
    assigned? (front ++ " = " ++ variableName ++ "; break;" ++ tail) = some variableName := by
  have hline : (front ++ " = " ++ variableName ++ "; break;" ++ tail).toList
      = (front.toList ++ [' ', '=']) ++ ' ' :: ((variableName ++ ";").toList ++ ' ' ::
        ("break;".toList ++ tail.toList)) := by
    simp [String.toList_append]
  have hvariable : Graphic (variableName ++ ";") := graphic_closed hname (by decide)
  have hbehind : ∀ word ∈ (words tail.toList).reverse, decide (word ≠ "break;".toList) = true := by
    intro word hword
    have hne : word ≠ "break;".toList := fun heq => hbreak (heq ▸ List.mem_reverse.mp hword)
    exact decide_eq_true hne
  unfold assigned?
  rw [hline, words_append_cons (by decide),
    words_graphic_append_cons (by simp [String.toList_append]) hvariable (by decide),
    words_graphic_append (by simp) (by decide) htail]
  simp only [List.reverse_append, List.reverse_cons, List.append_assoc, List.cons_append,
    List.nil_append]
  rw [List.dropWhile_append_of_pos hbehind, List.dropWhile_cons_of_neg (by simp)]
  exact between?_closing ";" variableName

/-- The macro and the variable that a line compares. -/
def compared? (line : String) : Option (String × String) :=
  match words line.toList with
  | [first, second] => do
      some (← between? "check(" "," first, ← between? "" ");" second)
  | _ => none

theorem compared?_check {macroName variableName : String} (hmacroName : Nominal macroName)
    (hvariable : Nominal variableName) :
    compared? ("  check(" ++ macroName ++ ", " ++ variableName ++ ");")
      = some (macroName, variableName) := by
  have hline : ("  check(" ++ macroName ++ ", " ++ variableName ++ ");").toList
      = "  ".toList ++ (("check(" ++ macroName ++ ",").toList ++ ' ' :: (variableName ++ ");").toList) := by
    simp [String.toList_append]
  have hfirst : Graphic ("check(" ++ macroName ++ ",") :=
    graphic_append.mpr ⟨graphic_append.mpr ⟨by decide, hmacroName.graphic⟩, by decide⟩
  have hsecond : Graphic (variableName ++ ");") := graphic_closed hvariable (by decide)
  unfold compared?
  rw [hline, words_blanks_append (List.all_eq_true.mp (by decide)),
    words_graphic_append_cons (by simp [String.toList_append]) hfirst (by decide),
    words_graphic (by simp [String.toList_append]) hsecond]
  simp only [between?_append, between?_closing]
  rfl

/-- The C# name of the constant that a line reads, and its id. -/
def extracted? (line : String) : Option (String × String) :=
  match words line.toList with
  | [call, name, id] =>
      if call = "ExtractConstant(ref".toList then do
        some (← between? "" "," name, ← between? "" ");" id)
      else none
  | _ => none

theorem extracted?_call {front name id : String} (hfront : AllBlank front) (hname : Nominal name)
    (hid : Nominal id) :
    extracted? (front ++ "ExtractConstant(ref " ++ name ++ ", " ++ id ++ ");") = some (name, id) := by
  have hline : (front ++ "ExtractConstant(ref " ++ name ++ ", " ++ id ++ ");").toList
      = front.toList ++ ("ExtractConstant(ref".toList ++ ' ' ::
        ((name ++ ",").toList ++ ' ' :: (id ++ ");").toList)) := by
    simp [String.toList_append]
  have hnameWord : Graphic (name ++ ",") := graphic_closed hname (by decide)
  have hidWord : Graphic (id ++ ");") := graphic_closed hid (by decide)
  unfold extracted?
  rw [hline, words_blanks_append hfront,
    words_graphic_append_cons (by simp) (by decide) (by decide),
    words_graphic_append_cons (by simp [String.toList_append]) hnameWord (by decide),
    words_graphic (by simp [String.toList_append]) hidWord]
  simp only [if_true, between?_closing]
  rfl

/-- The Python name of the constant that a line reads, and its id. -/
def attribute? (line : String) : Option (String × String) :=
  match words line.toList with
  | name :: _ :: _ :: call :: _ => do
      some (← between? "" ":" name, ← between? "get_constant(" "," call)
  | _ => none

theorem attribute?_call {name type id ctype : String} (hname : Nominal name) (htype : Nominal type)
    (hsome : type.toList ≠ []) (hid : Nominal id) :
    attribute? ("    " ++ name ++ ": " ++ type ++ " = get_constant(" ++ id ++ ", " ++ ctype ++ ")")
      = some (name, id) := by
  have hline : ("    " ++ name ++ ": " ++ type ++ " = get_constant(" ++ id ++ ", " ++ ctype ++ ")").toList
      = "    ".toList ++ ((name ++ ":").toList ++ ' ' :: (type.toList ++ ' ' :: ("=".toList ++ ' ' ::
        (("get_constant(" ++ id ++ ",").toList ++ ' ' :: (ctype ++ ")").toList)))) := by
    simp [String.toList_append]
  have hnameWord : Graphic (name ++ ":") := graphic_closed hname (by decide)
  have hcallWord : Graphic ("get_constant(" ++ id ++ ",") :=
    graphic_append.mpr ⟨graphic_append.mpr ⟨by decide, hid.graphic⟩, by decide⟩
  unfold attribute?
  rw [hline, words_blanks_append (List.all_eq_true.mp (by decide)),
    words_graphic_append_cons (by simp [String.toList_append]) hnameWord (by decide),
    words_graphic_append_cons hsome htype.graphic (by decide),
    words_graphic_append_cons (by simp) (by decide) (by decide),
    words_graphic_append_cons (by simp [String.toList_append]) hcallWord (by decide)]
  simp only [between?_append, between?_closing]
  rfl

/-- The words of a line behind a text that it starts with, such as a type that may have blanks. -/
def wordsBehind? (front line : String) : Option (List (List Char)) :=
  if front.toList.isPrefixOf line.toList then some (words (line.toList.drop front.length)) else none

theorem wordsBehind?_append (front rest : String) :
    wordsBehind? front (front ++ rest) = some (words rest.toList) := by
  unfold wordsBehind?
  rw [String.toList_append, if_pos (List.isPrefixOf_iff_prefix.mpr (List.prefix_append _ _)),
    ← String.length_toList, List.drop_left]

/-- The variable that a line declares in the core library with a type. -/
def coreVariable? (type line : String) : Option String :=
  match wordsBehind? type line with
  | some (qualifier :: name :: sign :: _) =>
      if qualifier = "const".toList ∧ sign = ['='] then some (String.ofList name) else none
  | _ => none

theorem coreVariable?_declare {type name tail : String} (hname : Nominal name) (hsome : name.toList ≠ [])
    (htail : BlankFirst tail) :
    coreVariable? type (type ++ " const " ++ name ++ " =" ++ tail) = some name := by
  have hline : type ++ " const " ++ name ++ " =" ++ tail = type ++ (" const " ++ name ++ " =" ++ tail) := by
    simp only [String.append_assoc]
  have hrest : (" const " ++ name ++ " =" ++ tail).toList
      = " ".toList ++ ("const".toList ++ ' ' :: (name.toList ++ ' ' :: ("=".toList ++ tail.toList))) := by
    simp [String.toList_append]
  unfold coreVariable?
  rw [hline, wordsBehind?_append, hrest, words_blanks_append (List.all_eq_true.mp (by decide)),
    words_graphic_append_cons (by simp) (by decide) (by decide),
    words_graphic_append_cons hsome hname.graphic (by decide),
    words_graphic_append (by simp) (by decide) htail]
  simp

/-- The variable that a line declares in C++ with a type. -/
def cppVariable? (type line : String) : Option String :=
  match wordsBehind? ("  static const " ++ type) line with
  | some (name :: _) => between? "" ";" name
  | _ => none

theorem cppVariable?_declare {type gap name tail : String} (hgap : AllBlank gap) (hname : Nominal name)
    (htail : BlankFirst tail) :
    cppVariable? type ("  static const " ++ type ++ gap ++ name ++ ";" ++ tail) = some name := by
  have hline : "  static const " ++ type ++ gap ++ name ++ ";" ++ tail
      = "  static const " ++ type ++ (gap ++ (name ++ ";") ++ tail) := by
    simp only [String.append_assoc]
  have hword : Graphic (name ++ ";") := graphic_closed hname (by decide)
  unfold cppVariable?
  rw [hline, wordsBehind?_append, String.toList_append, String.toList_append, List.append_assoc,
    words_blanks_append hgap, words_graphic_append (by simp [String.toList_append]) hword htail]
  exact between?_closing ";" name

/-- What stands between the last opening bracket of a line and the end of the line. -/
def lastArgument (line : String) : List Char := (line.toList.reverse.takeWhile (· ≠ '(')).reverse

theorem lastArgument_append {front argument : String} (h : '(' ∉ argument.toList) :
    lastArgument (front ++ "(" ++ argument) = argument.toList := by
  have hline : (front ++ "(" ++ argument).toList.reverse
      = argument.toList.reverse ++ '(' :: front.toList.reverse := by
    simp [String.toList_append]
  have hall : ∀ c ∈ argument.toList.reverse, decide (c ≠ '(') = true := by
    intro c hc
    have hne : c ≠ '(' := fun heq => h (heq ▸ List.mem_reverse.mp hc)
    exact decide_eq_true hne
  unfold lastArgument
  rw [hline, List.takeWhile_append_of_pos hall, List.takeWhile_cons_of_neg (by simp), List.append_nil,
    List.reverse_reverse]

theorem words_lastArgument {front gap argument : String} (hgap : AllBlank gap)
    (hargument : Nominal argument) :
    words (lastArgument (front ++ "(" ++ (gap ++ (argument ++ ");")))) = [(argument ++ ");").toList] := by
  have hword : Graphic (argument ++ ");") := graphic_closed hargument (by decide)
  have hnone : '(' ∉ (gap ++ (argument ++ ");")).toList := by
    simp only [String.toList_append, List.mem_append, not_or]
    exact ⟨fun hmem => absurd (hgap _ hmem) (by decide),
      fun hmem => absurd (hargument _ hmem) (by decide), by decide⟩
  rw [lastArgument_append hnone, String.toList_append, words_blanks_append hgap,
    words_graphic (by simp [String.toList_append]) hword]

/-- The variable with a type that a line of C++ sets to a constant of the core library, and the id of
that constant. -/
def cppConstant? (type line : String) : Option (String × String) :=
  match wordsBehind? ("_YOGI_WEAK_SYMBOL const " ++ type) line, words (lastArgument line) with
  | some (name :: sign :: call :: _), [id] =>
      if sign = ['='] ∧ "detail::get_core_constant<".toList <+: call then do
        some (← between? "constants::" "" name, ← between? "" ");" id)
      else none
  | _, _ => none

/-- The words behind the type are the name, the sign and the start of the call. -/
theorem exists_wordsBehind?_definition {front gap name gap' rest : String} (hgap : AllBlank gap)
    (hname : Nominal name) (hgap' : AllBlank gap') : ∃ more others,
    wordsBehind? front (front ++ (gap ++ " constants::" ++ name ++ gap' ++ " = detail::get_core_constant<"
        ++ rest))
      = some (("constants::" ++ name).toList :: "=".toList
        :: ("detail::get_core_constant<".toList ++ more) :: others) := by
  have hline : (gap ++ " constants::" ++ name ++ gap' ++ " = detail::get_core_constant<" ++ rest).toList
      = gap.toList ++ (" ".toList ++ ((("constants::" ++ name).toList ++ gap'.toList) ++ ' ' ::
        ("=".toList ++ ' ' :: ("detail::get_core_constant<".toList ++ rest.toList)))) := by
    simp [String.toList_append]
  have hword : Graphic ("constants::" ++ name) :=
    graphic_append.mpr ⟨by decide, hname.graphic⟩
  obtain ⟨more, others, hcall⟩ : ∃ more others, words ("detail::get_core_constant<".toList ++ rest.toList)
      = ("detail::get_core_constant<".toList ++ more) :: others :=
    exists_words_append (by simp) (Graphic.isBlank (by decide))
  refine ⟨more, others, ?_⟩
  rw [wordsBehind?_append, hline, words_blanks_append hgap,
    words_blanks_append (List.all_eq_true.mp (by decide)), words_append_cons (by decide),
    words_append_blanks hgap',
    words_graphic (by simp [String.toList_append]) hword,
    words_graphic_append_cons (by simp) (by decide) (by decide), hcall, List.singleton_append]

theorem cppConstant?_read {type gap name gap' types gap'' id : String} (hgap : AllBlank gap)
    (hname : Nominal name) (hgap' : AllBlank gap') (hgap'' : AllBlank gap'') (hid : Nominal id) :
    cppConstant? type ("_YOGI_WEAK_SYMBOL const " ++ type ++ gap ++ " constants::" ++ name ++ gap'
      ++ " = detail::get_core_constant<" ++ types ++ ">(" ++ gap'' ++ id ++ ");") = some (name, id) := by
  generalize hline : "_YOGI_WEAK_SYMBOL const " ++ type ++ gap ++ " constants::" ++ name ++ gap'
      ++ " = detail::get_core_constant<" ++ types ++ ">(" ++ gap'' ++ id ++ ");" = line
  -- the id is read from the right, for the types may have any text
  have hargument : words (lastArgument line) = [(id ++ ");").toList] := by
    have hlast : line = ("_YOGI_WEAK_SYMBOL const " ++ type ++ gap ++ " constants::" ++ name ++ gap'
        ++ " = detail::get_core_constant<" ++ types ++ ">") ++ "(" ++ (gap'' ++ (id ++ ");")) := by
      rw [← hline]
      simp [String.append_assoc]
    rw [hlast, words_lastArgument hgap'' hid]
  -- and the name from the left, behind the type
  obtain ⟨more, others, hfront⟩ : ∃ more others,
      wordsBehind? ("_YOGI_WEAK_SYMBOL const " ++ type) line = some (("constants::" ++ name).toList
        :: "=".toList :: ("detail::get_core_constant<".toList ++ more) :: others) := by
    have hbehind : line = "_YOGI_WEAK_SYMBOL const " ++ type ++ (gap ++ " constants::" ++ name ++ gap'
        ++ " = detail::get_core_constant<" ++ (types ++ ">(" ++ gap'' ++ id ++ ");")) := by
      rw [← hline]
      simp [String.append_assoc]
    rw [hbehind]
    exact exists_wordsBehind?_definition hgap hname hgap'
  unfold cppConstant?
  rw [hfront, hargument]
  simp only [List.prefix_append, between?_opening, between?_closing]
  rfl

end Bindery.Declaration
