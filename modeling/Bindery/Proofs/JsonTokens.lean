import Bindery.Proofs.ConstantLines
import Bindery.Proofs.Literals
import Mathlib.Data.List.TakeWhile
import Mathlib.Data.Nat.Digits.Defs

/-!
# Tokens of JSON

A JSON text is a row of marks, texts in quotes, numbers and the three names of fixed values. Quoted texts and
whole numbers are read as what they were made of.
-/

namespace Bindery

open Text

/-- A JSON value. -/
inductive Json where
  | null
  | boolean (value : Bool)
  /-- the number `digits * 10 ^ exponent` -/
  | number (digits exponent : Int)
  | string (text : String)
  | array (items : List Json)
  | object (entries : List (String × Json))

namespace Json

/-! ## Quoted texts -/

/-- Where a reader is within a quoted text. -/
inductive TextState where
  | plain
  /-- behind a backslash -/
  | escape
  /-- behind `\u` and its digits so far: how many are missing, and the code so far; the escape may be the
  second half of a surrogate pair -/
  | unit (high? : Option Nat) (missing code : Nat)
  /-- behind the first half of a surrogate pair -/
  | high (code : Nat)
  /-- behind the first half of a surrogate pair and a backslash -/
  | highEscape (code : Nat)
deriving DecidableEq, Repr

/-- The character that a backslash and one more character stand for. -/
def simpleEscape? : Char → Option Char
  | '"' => some '"'
  | '\\' => some '\\'
  | '/' => some '/'
  | 'b' => some '\x08'
  | 'f' => some '\x0c'
  | 'n' => some '\n'
  | 'r' => some '\r'
  | 't' => some '\t'
  | _ => none

/-- What an escape of four digits stands for: a character, or half of one. -/
def unitEnd (high? : Option Nat) (code : Nat) : Option (List Char × TextState) :=
  match high? with
  | none =>
      if 0xd800 ≤ code ∧ code < 0xdc00 then some ([], .high code)
      else if 0xdc00 ≤ code ∧ code < 0xe000 then none
      else some ([Char.ofNat code], .plain)
  | some high =>
      if 0xdc00 ≤ code ∧ code < 0xe000 then
        some ([Char.ofNat (0x10000 + 0x400 * (high - 0xd800) + (code - 0xdc00))], .plain)
      else none

/-- Control characters do not stand in a text, and a quote ends it. -/
def TextState.step : TextState → Char → Option (List Char × TextState)
  | .plain, c =>
      if c = '"' ∨ c.toNat < 0x20 then none
      else if c = '\\' then some ([], .escape)
      else some ([c], .plain)
  | .escape, c =>
      match simpleEscape? c with
      | some meant => some ([meant], .plain)
      | none => if c = 'u' then some ([], .unit none 4 0) else none
  | .unit high? missing code, c =>
      (Literal.digit? 16 c).bind fun digit =>
        if missing = 1 then unitEnd high? (16 * code + digit)
        else some ([], .unit high? (missing - 1) (16 * code + digit))
  | .high code, c => if c = '\\' then some ([], .highEscape code) else none
  | .highEscape code, c => if c = 'u' then some ([], .unit (some code) 4 0) else none

def textScanner : Scanner TextState Char where
  step := TextState.step
  finish state := if state = .plain then some [] else none

/-! ## Numbers and names -/

/-- The digits behind the point of a number, if it has one, and what follows them. -/
def fraction? : List Char → Option (List Char × List Char)
  | '.' :: rest =>
      let digits := rest.takeWhile Char.isDigit
      if digits = [] then none else some (digits, rest.dropWhile Char.isDigit)
  | rest => some ([], rest)

/-- The exponent at the end of a number, if it has one. -/
def exponent? : List Char → Option Int
  | [] => some 0
  | mark :: rest =>
      let (negative, digits) := Toml.splitSign rest
      if (mark = 'e' ∨ mark = 'E') ∧ digits ≠ [] ∧ digits.all Char.isDigit then
        some (Toml.signed negative (Nat.ofDigitChars 10 digits 0))
      else none

/-- The number that a word without a sign spells, or its negative. The whole part has no zero in front. -/
def unsigned? (negative : Bool) (word : List Char) : Option Json := do
  let whole := word.takeWhile Char.isDigit
  if whole = [] ∨ (whole.head? = some '0' ∧ whole ≠ ['0']) then none
  let (fraction, rest) ← fraction? (word.dropWhile Char.isDigit)
  let exponent ← exponent? rest
  return .number (Toml.signed negative (Nat.ofDigitChars 10 (whole ++ fraction) 0))
    (exponent - fraction.length)

/-- The number that a word spells. -/
def number? : List Char → Option Json
  | '-' :: word => unsigned? true word
  | word => unsigned? false word

/-- The value that a word is. -/
def ofWord? (word : List Char) : Option Json :=
  if word = "null".toList then some .null
  else if word = "true".toList then some (.boolean true)
  else if word = "false".toList then some (.boolean false)
  else number? word

/-! ## Tokens -/

inductive Token where
  /-- a bracket, a brace, a comma or a colon -/
  | mark (c : Char)
  /-- a text, a number or a name -/
  | scalar (value : Json)

def isMark (c : Char) : Bool := c ∈ ['[', ']', '\x7b', '\x7d', ',', ':']

def isSpace (c : Char) : Bool := c ∈ [' ', '\t', '\n', '\r']

/-- Whether a character can stand in a number or a name. -/
def isWordPart (c : Char) : Bool := isNominal c || c = '.'

/-- Where a reader of tokens is. -/
inductive State where
  | between
  | text (read : List Char) (state : TextState)
  | word (read : List Char)

def betweenStep (c : Char) : Option (List Token × State) :=
  if isSpace c then some ([], .between)
  else if isMark c then some ([.mark c], .between)
  else if c = '"' then some ([], .text [] .plain)
  else if isWordPart c then some ([], .word [c])
  else none

def State.step : State → Char → Option (List Token × State)
  | .between, c => betweenStep c
  | .text read state, c =>
      if state = .plain ∧ c = '"' then some ([.scalar (.string (String.ofList read))], .between)
      else (state.step c).map fun (written, next) => ([], .text (read ++ written) next)
  | .word read, c =>
      if isWordPart c then some ([], .word (read ++ [c]))
      else do
        let value ← ofWord? read
        let (written, next) ← betweenStep c
        return (.scalar value :: written, next)

def State.finish : State → Option (List Token)
  | .between => some []
  | .text _ _ => none
  | .word read => (ofWord? read).map ([.scalar ·])

def scanner : Scanner State Token := ⟨State.step, State.finish⟩

def tokens? (text : List Char) : Option (List Token) := scanner.run .between text

/-! ## Reading quoted texts -/

variable {text front back rest : List Char} {tokens others : List Token} {c : Char}

theorem textScanner_step (state : TextState) (c : Char) : textScanner.step state c = state.step c := rfl

theorem scanner_step (state : State) (c : Char) : scanner.step state c = state.step c := rfl

theorem reads_control (hc : c.toNat < 0x20) :
    textScanner.Reads .plain ['\\', 'u', '0', '0', hexDigit (c.toNat / 16), hexDigit (c.toNat % 16)] [c]
      .plain := by
  have hdigit : ∀ n < 16, Literal.digit? 16 (hexDigit n) = some n := by decide
  have hsum : 16 * (c.toNat / 16) + c.toNat % 16 = c.toNat := Nat.div_add_mod _ _
  have hhigh : textScanner.step (.unit none 2 0) (hexDigit (c.toNat / 16))
      = some ([], .unit none 1 (c.toNat / 16)) := by
    rw [textScanner_step, TextState.step, hdigit _ (by omega)]
    simp
  have hlow : textScanner.step (.unit none 1 (c.toNat / 16)) (hexDigit (c.toNat % 16))
      = some ([c], .plain) := by
    rw [textScanner_step, TextState.step, hdigit _ (by omega), Option.bind_some, if_pos rfl, hsum, unitEnd,
      if_neg (by omega), if_neg (by omega), Char.ofNat_toNat]
  have hzero (missing : Nat) (h : 1 < missing) :
      textScanner.step (.unit none missing 0) '0' = some ([], .unit none (missing - 1) 0) := by
    have hdigit : Literal.digit? 16 '0' = some 0 := rfl
    rw [textScanner_step, TextState.step, hdigit, Option.bind_some, if_neg (by omega)]
  have hback : textScanner.step .plain '\\' = some ([], .escape) := rfl
  have hunit : textScanner.step .escape 'u' = some ([], .unit none 4 0) := rfl
  exact .cons hback (.cons hunit (.cons (hzero 4 (by omega)) (.cons (hzero 3 (by omega))
    (.cons hhigh (.single hlow)))))

theorem reads_jsonChar (c : Char) : textScanner.Reads .plain (jsonChar c) [c] .plain := by
  have hescape (meant sign : Char) (h : simpleEscape? sign = some meant) :
      textScanner.Reads .plain ['\\', sign] [meant] .plain := by
    have hsign : textScanner.step .escape sign = some ([meant], .plain) := by
      simp [textScanner_step, TextState.step, h]
    have hback : textScanner.step .plain '\\' = some ([], .escape) := rfl
    exact .cons hback (.single hsign)
  unfold jsonChar
  split
  iterate 7 exact hescape _ _ rfl
  next hquote hbackslash _ _ _ _ _ =>
    split
    next hcontrol => exact reads_control hcontrol
    next hcontrol =>
      refine .single ?_
      have hends : ¬ (c = '"' ∨ c.toNat < 0x20) := fun h => h.elim hquote hcontrol
      rw [textScanner_step, TextState.step, if_neg hends, if_neg hbackslash]

theorem reads_flatMap_jsonChar (text : List Char) :
    textScanner.Reads .plain (text.flatMap jsonChar) text .plain := by
  induction text with
  | nil => exact .nil _
  | cons c rest ih => exact (reads_jsonChar c).append ih

/-- What is read of a quoted text is kept until the text ends. -/
theorem reads_text {state next : TextState} {items : List Char}
    (h : textScanner.Reads state text items next) (read : List Char) :
    scanner.Reads (.text read state) text [] (.text (read ++ items) next) := by
  induction h generalizing read with
  | nil state =>
      rw [List.append_nil]
      exact .nil _
  | @cons state next last c rest written items hstep _ ih =>
      have hopen : ¬ (state = .plain ∧ c = '"') := by
        rintro ⟨rfl, rfl⟩
        cases hstep
      have hstep' : scanner.step (.text read state) c = some ([], .text (read ++ written) next) := by
        rw [scanner_step, State.step, if_neg hopen, ← textScanner_step, hstep, Option.map_some]
      have hrest := ih (read ++ written)
      rw [List.append_assoc] at hrest
      exact .cons hstep' hrest

theorem reads_jsonQuoted (text : String) :
    scanner.Reads .between (jsonQuoted text).toList [.scalar (.string text)] .between := by
  have hinside := reads_text (reads_flatMap_jsonChar text.toList) []
  have hclose : scanner.step (.text text.toList .plain) '"' = some ([.scalar (.string text)], .between) := by
    rw [scanner_step, State.step, if_pos ⟨rfl, rfl⟩, String.ofList_toList]
  have hopen : scanner.step .between '"' = some ([], .text [] .plain) := rfl
  have hall := Scanner.Reads.cons hopen (hinside.append (.single hclose))
  simpa [jsonQuoted, String.toList_append] using hall

/-! ## Reading words -/

/-- A text that does not go on with a word. -/
def EndsWord (text : List Char) : Prop := ∀ c ∈ text.head?, isWordPart c = false

/-- A text is read as some tokens wherever no word goes on behind it. -/
def Lexes (text : List Char) (tokens : List Token) : Prop :=
  ∀ rest, EndsWord rest → scanner.run .between (text ++ rest) = (scanner.run .between rest).map (tokens ++ ·)

theorem lexes_of_reads (h : scanner.Reads .between text tokens .between) : Lexes text tokens :=
  fun rest _ => h.run_append rest

theorem Lexes.append (hfront : Lexes front tokens) (hback : Lexes back others) (hsome : back ≠ [])
    (hends : EndsWord back) : Lexes (front ++ back) (tokens ++ others) := by
  intro rest hrest
  have hnext : EndsWord (back ++ rest) := by
    obtain ⟨c, others, rfl⟩ := List.exists_cons_of_ne_nil hsome
    exact hends
  rw [List.append_assoc, hfront _ hnext, hback rest hrest, Option.map_map]
  simp only [Function.comp_def, List.append_assoc]

theorem Lexes.after (hback : Lexes back others) (hfront : scanner.Reads .between front tokens .between) :
    Lexes (front ++ back) (tokens ++ others) := by
  intro rest hrest
  rw [List.append_assoc, hfront.run_append, hback rest hrest, Option.map_map]
  simp only [Function.comp_def, List.append_assoc]

theorem Lexes.tokens?_eq (h : Lexes text tokens) : tokens? text = some tokens := by
  have hrun := h [] (by simp [EndsWord])
  rw [List.append_nil] at hrun
  rw [tokens?, hrun]
  simp [Scanner.run, scanner, State.finish]

theorem reads_word {word : List Char} (h : ∀ c ∈ word, isWordPart c = true) (read : List Char) :
    scanner.Reads (.word read) word [] (.word (read ++ word)) := by
  induction word generalizing read with
  | nil =>
      rw [List.append_nil]
      exact .nil _
  | cons c word ih =>
      obtain ⟨hc, hword⟩ := List.forall_mem_cons.mp h
      have hstep : scanner.step (.word read) c = some ([], .word (read ++ [c])) := if_pos hc
      have hrest := ih hword (read ++ [c])
      rw [List.append_assoc, List.singleton_append] at hrest
      exact .cons hstep hrest

theorem isSpace_of_isWordPart (h : isWordPart c = true) : isSpace c = false ∧ isMark c = false ∧ c ≠ '"' := by
  simp only [isWordPart, Bool.or_eq_true, decide_eq_true_eq] at h
  rcases h with h | rfl
  · exact of_isNominal (P := fun c => isSpace c = false ∧ isMark c = false ∧ c ≠ '"') (by decide) h
  · decide

theorem lexes_word {word : List Char} {value : Json} (hsome : word ≠ []) (h : ∀ c ∈ word, isWordPart c = true)
    (hvalue : ofWord? word = some value) : Lexes word [.scalar value] := by
  obtain ⟨first, others, rfl⟩ := List.exists_cons_of_ne_nil hsome
  obtain ⟨hfirst, hothers⟩ := List.forall_mem_cons.mp h
  have hstart : scanner.step .between first = some ([], .word [first]) := by
    obtain ⟨hspace, hmark, hquote⟩ := isSpace_of_isWordPart hfirst
    simp [scanner_step, State.step, betweenStep, hspace, hmark, hquote, hfirst]
  have hread : scanner.Reads .between (first :: others) [] (.word (first :: others)) :=
    .cons hstart (reads_word hothers [first])
  intro rest hrest
  rw [hread.run_append]
  cases rest with
  | nil => simp [Scanner.run, scanner, State.finish, hvalue]
  | cons c rest =>
      have hc : isWordPart c = false := hrest c rfl
      have hword : scanner.step (.word (first :: others)) c = (betweenStep c).bind fun (written, next) =>
          some (.scalar value :: written, next) := by
        rw [scanner_step, State.step, hc, if_neg (by simp), hvalue]
        rfl
      have hbetween : scanner.step .between c = betweenStep c := rfl
      cases hstep : betweenStep c with
      | none =>
          rw [hstep] at hword hbetween
          rw [Scanner.run_cons_eq_none hword, Scanner.run_cons_eq_none hbetween]
          rfl
      | some pair =>
          rw [hstep] at hword hbetween
          rw [Scanner.run_cons hword, Scanner.run_cons hbetween, Option.map_map, Option.map_map]
          rfl

/-! ## Whole numbers -/

/-- The digits of a number do not start with a zero, unless that is all of them. -/
theorem head?_toDigits {number : Nat} (h : number ≠ 0) : (Nat.toDigits 10 number).head? ≠ some '0' := by
  induction number using Nat.strong_induction_on with
  | _ number ih =>
      by_cases hsmall : number < 10
      · have hall : ∀ number < 10, number ≠ 0 → (Nat.toDigits 10 number).head? ≠ some '0' := by decide
        exact hall number hsmall h
      · rw [Nat.toDigits_of_base_le (by decide) (by omega), List.head?_append_of_ne_nil _ Nat.toDigits_ne_nil]
        exact ih (number / 10) (by omega) (by omega)

theorem isDigit_of_mem_toDigits {number : Nat} : ∀ c ∈ Nat.toDigits 10 number, c.isDigit = true :=
  fun _ hc => Nat.isDigit_of_mem_toDigits (by decide) (by decide) hc

theorem unsigned?_toDigits (negative : Bool) (value : Nat) :
    unsigned? negative (Nat.toDigits 10 value) = some (.number (Toml.signed negative value) 0) := by
  have htake : (Nat.toDigits 10 value).takeWhile Char.isDigit = Nat.toDigits 10 value :=
    List.takeWhile_eq_self_iff.mpr isDigit_of_mem_toDigits
  have hdrop : (Nat.toDigits 10 value).dropWhile Char.isDigit = [] :=
    List.dropWhile_eq_nil_iff.mpr isDigit_of_mem_toDigits
  have hzero : ¬ (Nat.toDigits 10 value = [] ∨
      ((Nat.toDigits 10 value).head? = some '0' ∧ Nat.toDigits 10 value ≠ ['0'])) := by
    rintro (hnil | ⟨hhead, hne⟩)
    · exact Nat.toDigits_ne_nil hnil
    · by_cases hvalue : value = 0
      · subst hvalue
        exact hne rfl
      · exact head?_toDigits hvalue hhead
  rw [unsigned?, htake, hdrop, if_neg hzero]
  simp [fraction?, exponent?, Nat.ofDigitChars_ten_toDigits]

theorem number?_toString (value : Int) : number? (toString value).toList = some (.number value 0) := by
  cases value with
  | ofNat magnitude =>
      have hdigits : (toString (Int.ofNat magnitude)).toList = Nat.toDigits 10 magnitude := by
        change (Nat.repr magnitude).toList = _
        simp [Nat.repr]
      have hsign : (Nat.toDigits 10 magnitude).head? ≠ some '-' := by
        intro hhead
        have hdigit := isDigit_of_mem_toDigits '-' (List.mem_of_head? hhead)
        revert hdigit
        decide
      rw [hdigits, number?]
      · exact unsigned?_toDigits false magnitude
      · intro word heq
        rw [heq] at hsign
        exact hsign rfl
  | negSucc magnitude =>
      have hdigits : (toString (Int.negSucc magnitude)).toList = '-' :: Nat.toDigits 10 (magnitude + 1) := by
        change ("-" ++ Nat.repr (magnitude + 1)).toList = _
        simp [Nat.repr]
      rw [hdigits, number?]
      exact unsigned?_toDigits true (magnitude + 1)

theorem ofWord?_of_number? {word : List Char} {value : Json} (h : number? word = some value) :
    ofWord? word = some value := by
  have hname (name : String) (hname : number? name.toList = none) : word ≠ name.toList := by
    rintro rfl
    rw [hname] at h
    cases h
  rw [ofWord?, if_neg (hname "null" rfl), if_neg (hname "true" rfl), if_neg (hname "false" rfl), h]

theorem lexes_toString (value : Int) : Lexes (toString value).toList [.scalar (.number value 0)] := by
  have hpart : ∀ c ∈ (toString value).toList, isWordPart c = true := fun c hc => by
    rw [isWordPart, nominal_toString_int value c hc]
    rfl
  exact lexes_word (toString_int_ne_empty value) hpart (ofWord?_of_number? (number?_toString value))

end Json

end Bindery
