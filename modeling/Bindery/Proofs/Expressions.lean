import Bindery.Proofs.Words
import Bindery.Proofs.Outcome

/-!
# Integer expressions

The expressions that C, C++ and C# have for the values of flags: numbers and names, shifted and combined,
with parentheses around some of them. They are evaluated from left to right on integers of 32 bits.
-/

namespace Bindery.Expression

open Text

inductive Token where
  | number (value : Nat)
  | name (name : String)
  | shift
  | or
  | opening
  | closing
deriving DecidableEq, Repr

/-- The rule by which one integer is shifted by another; there may be no result. -/
abbrev ShiftRule := BitVec 32 → BitVec 32 → Option (BitVec 32)

/-- C and C++ define a shift only by less than the width, and only if the result can be represented. -/
def checkedShift : ShiftRule := fun value places =>
  if places.toNat < 32 ∧ 0 ≤ value.toInt ∧ value.toInt * 2 ^ places.toNat < 2 ^ 31 then
    some (value <<< places.toNat)
  else none

/-- C# reduces the number of places modulo the width, and drops the bits that are shifted out. -/
def maskedShift : ShiftRule := fun value places => some (value <<< (places.toNat % 32))

/-- What stands to the left of an operand, within one pair of parentheses. -/
structure Frame where
  /-- the operands of `|` up to the present one, combined -/
  combined : BitVec 32
  /-- what the operand is to shift, if it stands behind `<<` -/
  shifted? : Option (BitVec 32)
deriving DecidableEq, Repr

/-- What has been read of an expression. -/
structure State where
  /-- the frames around the present one, the innermost first -/
  outer : List Frame
  frame : Frame
  /-- the present operand of `|`, unless it is still to come -/
  value? : Option (BitVec 32)
deriving DecidableEq, Repr

variable (shift : ShiftRule) (env : String → Option (BitVec 32))

/-- The state after an operand has come, which must be due. -/
def State.take (state : State) (operand : BitVec 32) : Option State :=
  match state.value?, state.frame.shifted? with
  | some _, _ => none
  | none, none => some { state with value? := some operand }
  | none, some shifted => (shift shifted operand).map fun value => { state with value? := some value }

/-- The state after one more token, which must be one that can stand there. -/
def State.step (state : State) : Token → Option State
  | .number value => if value < 2 ^ 31 then state.take shift (.ofNat 32 value) else none
  | .name name => (env name).bind (state.take shift)
  | .shift => state.value?.map fun value =>
      { state with frame := { state.frame with shifted? := some value }, value? := none }
  | .or => state.value?.map fun value =>
      { state with frame := ⟨state.frame.combined ||| value, none⟩, value? := none }
  | .opening =>
      if state.value?.isNone then some ⟨state.frame :: state.outer, ⟨0, none⟩, none⟩ else none
  | .closing =>
      match state.outer, state.value? with
      | parent :: outer, some value =>
          State.take shift ⟨outer, parent, none⟩ (state.frame.combined ||| value)
      | _, _ => none

def State.run (state : State) (tokens : List Token) : Option State :=
  tokens.foldlM (State.step shift env) state

/-- The value of a complete expression; a text that is none has no value. -/
def State.result? (state : State) : Option (BitVec 32) :=
  if state.outer.isEmpty then state.value?.map (state.frame.combined ||| ·) else none

/-- The value of an expression, given the values of the names in it. -/
def evaluate (tokens : List Token) : Option (BitVec 32) :=
  (State.run shift env ⟨[], ⟨0, none⟩, none⟩ tokens).bind State.result?

variable {shift env}

namespace State

variable {state next : State} {tokens : List Token}

theorem run_append {first second : List Token} :
    run shift env state (first ++ second) = (run shift env state first).bind (run shift env · second) :=
  List.foldlM_append

theorem run_cons {token : Token} :
    run shift env state (token :: tokens) = (step shift env state token).bind (run shift env · tokens) :=
  List.foldlM_cons

/-- The state with more frames around it. -/
def within (state : State) (base : List Frame) : State := { state with outer := state.outer ++ base }

theorem take_within {base : List Frame} {operand : BitVec 32} (h : state.take shift operand = some next) :
    (state.within base).take shift operand = some (next.within base) := by
  unfold take at h ⊢
  simp only [within]
  split at h
  · cases h
  · cases h
    rfl
  · obtain ⟨value, hvalue, rfl⟩ := Option.map_eq_some_iff.mp h
    simp [*]

/-- What is read inside of parentheses does not depend on what is around them. -/
theorem step_within {base : List Frame} {token : Token} (h : step shift env state token = some next) :
    step shift env (state.within base) token = some (next.within base) := by
  cases token with
  | number value =>
      simp only [step] at h ⊢
      split at h
      next hlt =>
        rw [if_pos hlt]
        exact take_within h
      next => cases h
  | name name =>
      simp only [step] at h ⊢
      obtain ⟨value, hvalue, h⟩ := Option.bind_eq_some_iff.mp h
      rw [hvalue, Option.bind_some]
      exact take_within h
  | shift | or =>
      obtain ⟨value, hvalue, rfl⟩ := Option.map_eq_some_iff.mp h
      simp only [step, within, hvalue, Option.map_some]
  | opening =>
      simp only [step] at h ⊢
      split at h
      next hnone =>
        cases h
        exact if_pos hnone
      next => cases h
  | closing =>
      simp only [step, within] at h ⊢
      split at h
      next parent outer value houter hvalue =>
        rw [houter, hvalue]
        exact take_within h
      next => cases h

theorem run_within {base : List Frame} (h : run shift env state tokens = some next) :
    run shift env (state.within base) tokens = some (next.within base) := by
  induction tokens generalizing state with
  | nil =>
      cases h
      rfl
  | cons token rest ih =>
      rw [run_cons] at h ⊢
      obtain ⟨middle, hmiddle, hrest⟩ := Option.bind_eq_some_iff.mp h
      rw [step_within hmiddle, Option.bind_some, ih hrest]

end State

/-- Parentheses keep the value of an expression. -/
theorem evaluate_parentheses {tokens : List Token} {value : BitVec 32}
    (h : evaluate shift env tokens = some value) :
    evaluate shift env (.opening :: tokens ++ [.closing]) = some value := by
  obtain ⟨⟨outer, frame, value?⟩, hrun, hresult⟩ := Option.bind_eq_some_iff.mp h
  unfold State.result? at hresult
  split at hresult
  next houter =>
    obtain ⟨last, hlast, rfl⟩ := Option.map_eq_some_iff.mp hresult
    obtain rfl : outer = [] := List.isEmpty_iff.mp houter
    obtain rfl : value? = some last := hlast
    have hinner : State.run shift env ⟨[⟨0, none⟩], ⟨0, none⟩, none⟩ tokens
        = some ⟨[⟨0, none⟩], frame, some last⟩ := State.run_within hrun
    have hopen : State.step shift env ⟨[], ⟨0, none⟩, none⟩ .opening
        = some ⟨[⟨0, none⟩], ⟨0, none⟩, none⟩ := rfl
    have hclose : State.step shift env ⟨[⟨0, none⟩], frame, some last⟩ .closing
        = some ⟨[], ⟨0, none⟩, some (frame.combined ||| last)⟩ := rfl
    unfold evaluate
    rw [List.cons_append, State.run_cons, hopen, Option.bind_some, State.run_append, hinner,
      Option.bind_some, State.run_cons, hclose, Option.bind_some]
    simp [State.run, State.result?]
  next => cases hresult

/-- The tokens that combine names. -/
def disjunction (names : List String) : List Token :=
  (names.map Token.name).intersperse .or

/-- Names with values are combined one after the other. -/
theorem exists_run_disjunction {outer : List Frame} {names : List String} {values : List (BitVec 32)}
    (hvalues : List.Forall₂ (fun name value => env name = some value) names values) (hsome : names ≠ [])
    (combined : BitVec 32) : ∃ before last,
      State.run shift env ⟨outer, ⟨combined, none⟩, none⟩ (disjunction names)
        = some ⟨outer, ⟨before, none⟩, some last⟩ ∧
      before ||| last = values.foldl (· ||| ·) combined := by
  induction hvalues generalizing combined with
  | nil => exact absurd rfl hsome
  | @cons name value rest others hname hrest ih =>
      have hfirst : State.step shift env ⟨outer, ⟨combined, none⟩, none⟩ (.name name)
          = some ⟨outer, ⟨combined, none⟩, some value⟩ := by
        simp only [State.step, hname]
        rfl
      cases hrest with
      | nil => exact ⟨combined, value, by simp [disjunction, State.run, hfirst], rfl⟩
      | @cons second _ more _ hsecond hmore =>
          obtain ⟨before, last, hrun, heq⟩ := ih (by simp) (combined ||| value)
          refine ⟨before, last, ?_, heq⟩
          have htokens : disjunction (name :: second :: more)
              = .name name :: .or :: disjunction (second :: more) := rfl
          have hor : State.step shift env ⟨outer, ⟨combined, none⟩, some value⟩ .or
              = some ⟨outer, ⟨combined ||| value, none⟩, none⟩ := rfl
          rw [htokens, State.run_cons, hfirst, Option.bind_some, State.run_cons, hor, Option.bind_some,
            hrun]

theorem evaluate_disjunction {names : List String} {values : List (BitVec 32)}
    (hvalues : List.Forall₂ (fun name value => env name = some value) names values) (hsome : names ≠ []) :
    evaluate shift env (disjunction names) = some (values.foldl (· ||| ·) 0) := by
  obtain ⟨before, last, hrun, heq⟩ := exists_run_disjunction hvalues hsome 0
  unfold evaluate
  rw [hrun, Option.bind_some, ← heq]
  rfl

theorem evaluate_shift {places : Nat} {value : BitVec 32} (hplaces : places < 2 ^ 31)
    (h : shift 1 (.ofNat 32 places) = some value) :
    evaluate shift env [.number 1, .shift, .number places] = some value := by
  have hone : State.step shift env ⟨[], ⟨0, none⟩, none⟩ (.number 1) = some ⟨[], ⟨0, none⟩, some 1⟩ := rfl
  have hshift : State.step shift env ⟨[], ⟨0, none⟩, some 1⟩ .shift = some ⟨[], ⟨0, some 1⟩, none⟩ := rfl
  have hnumber : State.step shift env ⟨[], ⟨0, some 1⟩, none⟩ (.number places)
      = some ⟨[], ⟨0, some 1⟩, some value⟩ := by
    simp only [State.step, if_pos hplaces, State.take, h, Option.map_some]
  unfold evaluate
  rw [State.run_cons, hone, Option.bind_some, State.run_cons, hshift, Option.bind_some, State.run_cons,
    hnumber]
  simp [State.run, State.result?]

theorem evaluate_zero : evaluate shift env [.number 0] = some 0 := rfl

/-- Nothing at all is no expression, and neither is it in parentheses. -/
theorem evaluate_nil : evaluate shift env [] = none := rfl

theorem evaluate_empty_parentheses : evaluate shift env [.opening, .closing] = none := rfl

/-! ## Reading -/

/-- The token that a word is. -/
def Token.ofWord? (word : List Char) : Option Token :=
  if word = ['<', '<'] then some .shift
  else if word = ['|'] then some .or
  else if word = ['('] then some .opening
  else if word = [')'] then some .closing
  else if word ≠ [] ∧ word.all Char.isDigit then some (.number (Nat.ofDigitChars 10 word 0))
  else if Identifier.isSpelled word then some (.name (String.ofList word))
  else none

/-- Whether a character is a word by itself. -/
def isPunctuation (c : Char) : Bool := c = '(' || c = ')' || c = ','

/-- The words of a piece of code; punctuation needs no blanks around it. -/
def codeWords (text : List Char) : List (List Char) :=
  words (text.flatMap fun c => if isPunctuation c then [' ', c, ' '] else [c])

/-- The tokens of an expression. -/
def tokens? (text : List Char) : Option (List Token) := (codeWords text).mapM Token.ofWord?

variable {text before after : List Char} {c : Char}

theorem codeWords_nil : codeWords [] = [] := rfl

theorem codeWords_append_blank (hc : isBlank c = true) :
    codeWords (before ++ c :: after) = codeWords before ++ codeWords after := by
  have hplain : isPunctuation c = false := by
    cases hpunctuation : isPunctuation c with
    | false => rfl
    | true =>
        simp only [isPunctuation, Bool.or_eq_true, decide_eq_true_eq] at hpunctuation
        rcases hpunctuation with (rfl | rfl) | rfl <;> cases hc
  unfold codeWords
  rw [List.flatMap_append, List.flatMap_cons, hplain, if_neg (by simp), List.singleton_append,
    words_append_cons hc]

theorem codeWords_append_punctuation (hc : isPunctuation c = true) :
    codeWords (before ++ c :: after) = codeWords before ++ [c] :: codeWords after := by
  have hword : words [c] = [[c]] := by
    simp only [isPunctuation, Bool.or_eq_true, decide_eq_true_eq] at hc
    rcases hc with (rfl | rfl) | rfl <;> decide
  have hblank : isBlank ' ' = true := by decide
  unfold codeWords
  rw [List.flatMap_append, List.flatMap_cons, hc, if_pos rfl]
  change words (_ ++ ' ' :: ([c] ++ ' ' :: _)) = _
  rw [words_append_cons hblank, words_append_cons hblank, hword]
  rfl

theorem codeWords_blanks_append (h : ∀ c ∈ before, isBlank c = true) :
    codeWords (before ++ text) = codeWords text := by
  induction before with
  | nil => rfl
  | cons c rest ih =>
      obtain ⟨hc, hrest⟩ := List.forall_mem_cons.mp h
      have hsplit : codeWords ([] ++ c :: (rest ++ text)) = codeWords [] ++ codeWords (rest ++ text) :=
        codeWords_append_blank hc
      rw [List.cons_append, ← ih hrest]
      exact hsplit

theorem codeWords_of_forall (hsome : text ≠ [])
    (h : ∀ c ∈ text, isGraphic c = true ∧ isPunctuation c = false) : codeWords text = [text] := by
  have hsame : (text.flatMap fun c => if isPunctuation c then [' ', c, ' '] else [c]) = text := by
    have hsingle : ∀ c ∈ text, (if isPunctuation c then [' ', c, ' '] else [c]) = [c] := by
      intro c hc
      rw [(h c hc).2, if_neg (by simp)]
    rw [List.flatMap_congr hsingle, List.flatMap_singleton']
  unfold codeWords
  rw [hsame]
  exact words_of_forall hsome fun c hc => isBlank_of_isGraphic (h c hc).1

theorem isGraphic_of_isPart (h : Identifier.isPart c = true) :
    isGraphic c = true ∧ isPunctuation c = false ∧ c ≠ '/' :=
  of_isNominal (P := fun c => isGraphic c = true ∧ isPunctuation c = false ∧ c ≠ '/') (by decide)
    (isNominal_of_isPart h)

theorem codeWords_of_isSpelled (h : Identifier.isSpelled text = true) : codeWords text = [text] := by
  have hsome : text ≠ [] := by
    rintro rfl
    cases h
  refine codeWords_of_forall hsome fun c hc => ?_
  obtain ⟨hgraphic, hplain, -⟩ := isGraphic_of_isPart (isPart_of_isSpelled h c hc)
  exact ⟨hgraphic, hplain⟩

theorem tokens?_append_blank {first second : List Token} (hc : isBlank c = true)
    (hbefore : tokens? before = some first) (hafter : tokens? after = some second) :
    tokens? (before ++ c :: after) = some (first ++ second) := by
  unfold tokens? at hbefore hafter ⊢
  rw [codeWords_append_blank hc, List.mapM_append, hbefore, hafter]
  rfl

theorem tokens?_of_ofWord? {token : Token} (hwords : codeWords text = [text])
    (h : Token.ofWord? text = some token) : tokens? text = some [token] := by
  unfold tokens?
  rw [hwords, List.mapM_cons, h]
  rfl

theorem tokens?_number (number : Nat) : tokens? (toString number).toList = some [.number number] := by
  have hlist : (toString number).toList = Nat.toDigits 10 number := Nat.toList_repr
  have hsome : Nat.toDigits 10 number ≠ [] := Nat.toDigits_ne_nil
  have hdigits : ∀ c ∈ Nat.toDigits 10 number, c.isDigit = true := fun c hc =>
    Nat.isDigit_of_mem_toDigits (by decide) (by decide) hc
  rw [hlist]
  refine tokens?_of_ofWord? (codeWords_of_forall hsome fun c hc => ?_) ?_
  · have hpart : Identifier.isPart c = true := by
      simp [Identifier.isPart, Char.isAlphanum, hdigits c hc]
    obtain ⟨hgraphic, hplain, -⟩ := isGraphic_of_isPart hpart
    exact ⟨hgraphic, hplain⟩
  · have hne (c : Char) (rest : List Char) (hc : c.isDigit = false) :
        Nat.toDigits 10 number ≠ c :: rest := by
      intro heq
      have hdigit := hdigits c (heq ▸ List.mem_cons_self)
      rw [hc] at hdigit
      cases hdigit
    unfold Token.ofWord?
    rw [if_neg (hne _ _ rfl), if_neg (hne _ _ rfl), if_neg (hne _ _ rfl), if_neg (hne _ _ rfl),
      if_pos ⟨hsome, List.all_eq_true.mpr hdigits⟩, Nat.ofDigitChars_ten_toDigits]

theorem not_isStart_of_isDigit (h : c.isDigit = true) : Identifier.isStart c = false := by
  have hpart : Identifier.isPart c = true := by simp [Identifier.isPart, Char.isAlphanum, h]
  exact of_isNominal (P := fun c => c.isDigit = true → Identifier.isStart c = false) (by decide)
    (isNominal_of_isPart hpart) h

theorem tokens?_name {name : String} (h : Identifier.isSpelled name.toList = true) :
    tokens? name.toList = some [.name name] := by
  refine tokens?_of_ofWord? (codeWords_of_isSpelled h) ?_
  have hne (c : Char) (rest : List Char) (hc : Identifier.isStart c = false) :
      name.toList ≠ c :: rest := by
    intro heq
    rw [heq, Identifier.isSpelled, hc] at h
    cases h
  have hdigits : ¬ (name.toList ≠ [] ∧ name.toList.all Char.isDigit = true) := by
    rintro ⟨hsome, hall⟩
    rcases List.exists_cons_of_ne_nil hsome with ⟨first, rest, hlist⟩
    simp only [hlist, Identifier.isSpelled, Bool.and_eq_true] at h
    simp only [hlist, List.all_cons, Bool.and_eq_true] at hall
    exact absurd h.1 (by simp [not_isStart_of_isDigit hall.1])
  unfold Token.ofWord?
  rw [if_neg (hne _ _ rfl), if_neg (hne _ _ rfl), if_neg (hne _ _ rfl), if_neg (hne _ _ rfl),
    if_neg hdigits, if_pos h, String.ofList_toList]

theorem tokens?_parentheses {tokens : List Token} (h : tokens? text = some tokens) :
    tokens? ('(' :: text ++ [')']) = some (.opening :: tokens ++ [.closing]) := by
  have hopen : codeWords ([] ++ '(' :: (text ++ [')'])) = codeWords [] ++ ['('] :: codeWords (text ++ [')']) :=
    codeWords_append_punctuation rfl
  have hclose : codeWords (text ++ [')']) = codeWords text ++ [')'] :: codeWords [] :=
    codeWords_append_punctuation rfl
  rw [List.nil_append] at hopen
  unfold tokens? at h ⊢
  rw [List.cons_append, hopen, hclose, codeWords_nil, List.nil_append, List.mapM_cons, List.mapM_append, h]
  rfl

theorem tokens?_disjunction {names : List String} (h : ∀ name ∈ names, Identifier.isSpelled name.toList = true) :
    tokens? (join " | " names).toList = some (disjunction names) := by
  induction names with
  | nil => rfl
  | cons name rest ih =>
      obtain ⟨hname, hrest⟩ := List.forall_mem_cons.mp h
      cases rest with
      | nil =>
          have hsingle : join " | " [name] = name := String.intercalate_singleton
          rw [hsingle]
          exact tokens?_name hname
      | cons second more =>
          have hjoin : (join " | " (name :: second :: more)).toList
              = name.toList ++ ' ' :: (['|'] ++ ' ' :: (join " | " (second :: more)).toList) := by
            rw [join, String.intercalate_cons_cons]
            simp [String.toList_append, join]
          have hbar : tokens? ['|'] = some [.or] := by decide
          rw [hjoin, tokens?_append_blank (by decide) (tokens?_name hname)
            (tokens?_append_blank (by decide) hbar (ih hrest))]
          rfl

end Bindery.Expression
