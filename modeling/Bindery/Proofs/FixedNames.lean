import Bindery.Proofs.ConstantCase
import Bindery.Render.Values
import Mathlib.Data.List.Chain

/-!
# Names that constant case keeps

In constant case a capital behind a digit starts a word. So a name in constant case is kept exactly if no digit in it
stands directly in front of a letter, and converting a name a second time changes nothing exactly if no digit in it
stands directly in front of a lowercase letter.
-/

namespace Bindery

open Text Naming Identifier Enumeration

namespace Naming

variable {name : String} {c : Char} {before : Preceding} {text rest : List Char}

/-- The first of two characters is no digit in front of one of a kind. -/
def NoDigitBefore (kind : Char → Bool) (first second : Char) : Prop := ¬ (first.isDigit = true ∧ kind second = true)

instance (kind : Char → Bool) : DecidableRel (NoDigitBefore kind) := fun _ _ => inferInstanceAs (Decidable (¬ _))

/-! ## Adjacent characters -/

theorem isChain_cons_of_not_digit {kind : Char → Bool} (hc : c.isDigit = false) :
    (c :: text).IsChain (NoDigitBefore kind) ↔ text.IsChain (NoDigitBefore kind) := by
  rw [List.isChain_cons, and_iff_right]
  intro second _ hboth
  exact absurd hboth.1 (by simp [hc])

theorem isChain_cons_of_digit {kind : Char → Bool} (hc : c.isDigit = true) :
    (c :: text).IsChain (NoDigitBefore kind) ↔
      text.head?.any kind = false ∧ text.IsChain (NoDigitBefore kind) := by
  rw [List.isChain_cons]
  cases text <;> simp [NoDigitBefore, hc]

/-- Behind a small character, a capital that comes first was a lowercase letter. -/
theorem head?_constantFrom_small (h : ∀ c ∈ text, isPart c = true) :
    (constantFrom .small text).head?.any Char.isUpper = text.head?.any Char.isLower := by
  cases text with
  | nil => rfl
  | cons c rest =>
      obtain ⟨hc, -⟩ := List.forall_mem_cons.mp h
      by_cases hword : c = '_'
      · subst hword
        rfl
      · have hcase : if c.isUpper then c.isLower = false else c.toUpper.isUpper = c.isLower :=
          of_isPart (P := fun c => if c.isUpper then c.isLower = false else c.toUpper.isUpper = c.isLower)
            (by decide) hc
        rw [constantFrom_cons hc hword]
        cases hupper : c.isUpper with
        | true => simpa [hupper] using hcase
        | false => simpa [hupper] using hcase

theorem isChain_constantFrom_iff (h : ∀ c ∈ text, isPart c = true) (before : Preceding) :
    (constantFrom before text).IsChain (NoDigitBefore Char.isUpper) ↔ text.IsChain (NoDigitBefore Char.isLower) := by
  induction text generalizing before with
  | nil => simp [constantFrom]
  | cons c rest ih =>
      obtain ⟨hc, hrest⟩ := List.forall_mem_cons.mp h
      by_cases hword : c = '_'
      · subst hword
        rw [constantFrom_underscore, isChain_cons_of_not_digit (by decide), ← ih hrest .boundary]
        split
        · rfl
        · exact isChain_cons_of_not_digit (by decide)
      · have hupper : c.toUpper.isDigit = c.isDigit :=
          of_isPart (P := fun c => c.toUpper.isDigit = c.isDigit) (by decide) hc
        have hstart : (constantFrom before (c :: rest)).IsChain (NoDigitBefore Char.isUpper) ↔
            (c.toUpper :: constantFrom (if c.isUpper then .other else .small) rest).IsChain
              (NoDigitBefore Char.isUpper) := by
          rw [constantFrom_cons hc hword]
          split
          · exact isChain_cons_of_not_digit (by decide)
          · rfl
        rw [hstart]
        cases hdigit : c.isDigit with
        | false =>
            rw [isChain_cons_of_not_digit (hupper.trans hdigit), isChain_cons_of_not_digit hdigit,
              ih hrest]
        | true =>
            have hsmall : c.isUpper = false := by
              revert hdigit
              exact of_isPart (P := fun c => c.isDigit = true → c.isUpper = false) (by decide) hc
            rw [isChain_cons_of_digit (hupper.trans hdigit), isChain_cons_of_digit hdigit, ih hrest,
              hsmall, if_neg Bool.false_ne_true, head?_constantFrom_small hrest]

/-- Underscores at the end do not matter. -/
theorem isChain_rdropWhile_iff :
    (text.rdropWhile (· = '_')).IsChain (NoDigitBefore Char.isUpper) ↔ text.IsChain (NoDigitBefore Char.isUpper) := by
  have hdropped : ∀ c ∈ text.rtakeWhile (· = '_'), c = '_' := fun c hc => by
    simpa using List.mem_rtakeWhile_imp hc
  have hchain : (text.rtakeWhile (· = '_')).IsChain (NoDigitBefore Char.isUpper) := by
    generalize text.rtakeWhile (· = '_') = underscores at hdropped
    induction underscores with
    | nil => exact .nil
    | cons c rest ih =>
        obtain ⟨rfl, hrest⟩ := List.forall_mem_cons.mp hdropped
        exact (isChain_cons_of_not_digit (by decide)).mpr (ih hrest)
  conv_rhs => rw [← List.rdropWhile_append_rtakeWhile (p := (· = '_')) (l := text), List.isChain_append]
  refine (and_iff_left ⟨hchain, fun first _ second hsecond hboth => ?_⟩).symm
  rw [hdropped second (List.mem_of_head? hsecond)] at hboth
  exact absurd hboth.2 (by decide)

theorem isChain_constantCase_iff (h : ∀ c ∈ name.toList, isPart c = true) :
    (constantCase name).toList.IsChain (NoDigitBefore Char.isUpper) ↔
      name.toList.IsChain (NoDigitBefore Char.isLower) := by
  rw [toList_constantCase, isChain_rdropWhile_iff, isChain_constantFrom_iff h]

/-! ## Names in constant case -/

/-- A capital keeps what is in front of it unless a word starts with it. -/
theorem constantFrom_cons_eq_iff (hc : isCapital c = true) (before : Preceding) {rest rest' : List Char} :
    constantFrom before (c :: rest) = c :: rest' ↔
      (before = .small → c.isUpper = false) ∧
        constantFrom (if c.isUpper then .other else .small) rest = rest' := by
  have hne := ne_underscore_of_isCapital hc
  rw [constantFrom_cons (isPart_of_isCapital hc) hne, toUpper_of_isCapital hc]
  by_cases hstarts : c.isUpper = true ∧ before = .small
  · simp [hstarts.1, hstarts.2, hne.symm]
  · rw [if_neg hstarts, List.nil_append, List.cons_inj_right, and_iff_right]
    intro hsmall
    simpa [hsmall] using hstarts

theorem isUpper_of_isCapital (h : isCapital c = true) : c.isUpper = !c.isDigit :=
  of_isCapital (P := fun c => c.isUpper = !c.isDigit) (by decide) h

namespace IsConstant

theorem constantFrom_eq_self_iff (h : IsConstant text) (before : Preceding) :
    constantFrom before text = text ↔
      (before = .small → text.head?.any Char.isUpper = false) ∧ text.IsChain (NoDigitBefore Char.isUpper) := by
  induction h generalizing before with
  | last hc =>
      rw [constantFrom_cons_eq_iff hc]
      simp [constantFrom]
  | @next c rest hc _ ih =>
      simp only [constantFrom_cons_eq_iff hc, ih]
      cases hdigit : c.isDigit with
      | false => simp [isUpper_of_isCapital hc, hdigit, isChain_cons_of_not_digit hdigit]
      | true => simp [isUpper_of_isCapital hc, hdigit, isChain_cons_of_digit hdigit]
  | @word c rest hc _ ih =>
      have hunderscore : constantFrom (if c.isUpper then .other else .small) ('_' :: rest) = '_' :: rest ↔
          constantFrom .boundary rest = rest := by
        rw [constantFrom_underscore, if_neg (by split <;> simp), List.singleton_append, List.cons_inj_right]
      have hchain : (c :: '_' :: rest).IsChain (NoDigitBefore Char.isUpper) ↔
          rest.IsChain (NoDigitBefore Char.isUpper) := by
        rw [List.isChain_cons_cons, isChain_cons_of_not_digit (by decide)]
        exact and_iff_right fun hboth => absurd hboth.2 (by decide)
      simp only [constantFrom_cons_eq_iff hc, hunderscore, ih, hchain]
      simp

theorem rdropWhile_constantFrom (h : IsConstant text) (before : Preceding) :
    (constantFrom before text).rdropWhile (· = '_') = constantFrom before text := by
  have hcons {c : Char} {rest : List Char} (hc : isCapital c = true)
      (hrest : (constantFrom (if c.isUpper then .other else .small) rest).rdropWhile (· = '_') =
        constantFrom (if c.isUpper then .other else .small) rest) (before : Preceding) :
      (constantFrom before (c :: rest)).rdropWhile (· = '_') = constantFrom before (c :: rest) := by
    have hpart := isPart_of_isCapital hc
    have hword := ne_underscore_of_isCapital hc
    rw [rdropWhile_constantFrom_cons hpart hword, hrest, constantFrom_cons hpart hword]
  induction h generalizing before with
  | last hc => exact hcons hc rfl before
  | next hc _ ih => exact hcons hc (ih _) before
  | @word c rest hc hrest ih =>
      refine hcons hc ?_ before
      have hsome : constantFrom .boundary rest ≠ [] := by
        obtain ⟨first, others, rfl, hfirst⟩ := hrest.exists_cons
        rw [constantFrom_cons (isPart_of_isCapital hfirst) (ne_underscore_of_isCapital hfirst)]
        simp
      rw [constantFrom_underscore, if_neg (by split <;> simp), List.singleton_append, rdropWhile_cons, ih,
        if_neg fun hdropped => hsome hdropped.1]

theorem constantCase_eq_self_iff (h : IsConstant name.toList) :
    constantCase name = name ↔ name.toList.IsChain (NoDigitBefore Char.isUpper) := by
  rw [← String.toList_inj, toList_constantCase, h.rdropWhile_constantFrom, h.constantFrom_eq_self_iff]
  simp

end IsConstant

/-- Once a name is in constant case, a second conversion still parts the letters from the digits in front of them. -/
theorem constantCase_constantCase_eq_iff (h : ∀ c ∈ name.toList, isPart c = true) :
    constantCase (constantCase name) = constantCase name ↔ name.toList.IsChain (NoDigitBefore Char.isLower) := by
  rcases constantCase_eq_empty_or_isConstant h with hempty | hconstant
  · have hchain := isChain_constantCase_iff h
    rw [hempty] at hchain ⊢
    exact iff_of_true rfl (hchain.mp .nil)
  · rw [hconstant.constantCase_eq_self_iff, isChain_constantCase_iff h]

end Naming

namespace Enumeration

/-- What the macro of a member starts with. -/
def macroStem (enumeration : Enumeration) (value : Int) : String :=
  if enumeration.name = errorCodes && value = 0 then apiPrefix else apiPrefix ++ enumeration.macroPrefix ++ "_"

theorem macroName_eq (enumeration : Enumeration) (member : String) (value : Int) :
    enumeration.macroName member value = enumeration.macroStem value ++ member := by
  unfold macroName macroStem
  split <;> rfl

end Enumeration

namespace Naming

/-- A second conversion to constant case changes nothing exactly if no digit of the name stands directly in front of a
lowercase letter. A name in constant case that starts with a letter is kept exactly if no digit stands directly in
front of a letter; then the name of a member or flag in constant case is what its macro ends with. -/
theorem constantCase_fixed_iff :
    (∀ name : String, (∀ c ∈ name.toList, isPart c = true) →
      (constantCase (constantCase name) = constantCase name ↔ name.toList.IsChain (NoDigitBefore Char.isLower))) ∧
    ∀ name : String, IsConstant name.toList → name.toList.head?.any Char.isUpper = true →
      (constantCase name = name ↔ name.toList.IsChain (NoDigitBefore Char.isUpper)) ∧
      (∀ (enumeration : Enumeration) (value : Int),
        enumeration.macroName name value = enumeration.macroStem value ++ enumeration.constantName name ↔
          name.toList.IsChain (NoDigitBefore Char.isUpper)) ∧
      ∀ set : FlagSet, set.macroName name = apiPrefix ++ set.macroPrefix ++ "_" ++ constantCase name ↔
        name.toList.IsChain (NoDigitBefore Char.isUpper) := by
  refine ⟨fun name h => constantCase_constantCase_eq_iff h, fun name h hletter => ?_⟩
  have hfixed := h.constantCase_eq_self_iff
  have hdigit : ¬ startsWithDigit name = true := by
    obtain ⟨c, rest, htext, hc⟩ := h.exists_cons
    rw [htext] at hletter
    have hupper : (!c.isDigit) = true := by rwa [← isUpper_of_isCapital hc]
    simpa [startsWithDigit, htext] using hupper
  refine ⟨hfixed, fun enumeration value => ?_, fun set => ?_⟩
  · rw [macroName_eq, String.append_right_inj, constantName, if_neg hdigit, eq_comm, hfixed]
  · rw [FlagSet.macroName, String.append_right_inj, eq_comm, hfixed]

theorem constantCase_fixed_iff_signal :
    (∀ c ∈ "usr1Signal".toList, isPart c = true) ∧ "usr1Signal".toList.IsChain (NoDigitBefore Char.isLower) ∧
      constantCase (constantCase "usr1Signal") = constantCase "usr1Signal" ∧
      IsConstant "USR1_SIGNAL".toList ∧ "USR1_SIGNAL".toList.head?.any Char.isUpper = true ∧
      "USR1_SIGNAL".toList.IsChain (NoDigitBefore Char.isUpper) ∧ constantCase "USR1_SIGNAL" = "USR1_SIGNAL" ∧
      ∀ (enumeration : Enumeration) (value : Int),
        enumeration.macroName "USR1_SIGNAL" value =
          enumeration.macroStem value ++ enumeration.constantName "USR1_SIGNAL" := by
  obtain ⟨htwice, hkept⟩ := constantCase_fixed_iff
  have hparts : ∀ c ∈ "usr1Signal".toList, isPart c = true := List.all_eq_true.mp (by decide)
  have hlower : "usr1Signal".toList.IsChain (NoDigitBefore Char.isLower) := by decide
  have hconstant : IsConstant "USR1_SIGNAL".toList :=
    (constantCase_eq_empty_or_isConstant hparts).resolve_left (by decide)
  have hletter : "USR1_SIGNAL".toList.head?.any Char.isUpper = true := by decide
  have hupper : "USR1_SIGNAL".toList.IsChain (NoDigitBefore Char.isUpper) := by decide
  obtain ⟨hfixed, hsuffix, -⟩ := hkept "USR1_SIGNAL" hconstant hletter
  exact ⟨hparts, hlower, (htwice _ hparts).mpr hlower, hconstant, hletter, hupper, hfixed.mpr hupper,
    fun enumeration value => (hsuffix enumeration value).mpr hupper⟩

end Naming

namespace Sample

def digitLevels : Enumeration := ⟨"level", .sequential, none, [⟨"A1B", "", none⟩]⟩

end Sample

namespace Naming

/-- The capital behind the digit starts a word only in the second conversion, and in a name that is in constant case
already. -/
theorem constantCase_moves :
    (∀ c ∈ "a1b".toList, isPart c = true) ∧ constantCase "a1b" = "A1B" ∧
      constantCase (constantCase "a1b") = "A1_B" ∧
      IsConstant "A1B".toList ∧ "A1B".toList.head?.any Char.isUpper = true ∧ constantCase "A1B" ≠ "A1B" ∧
      Sample.digitLevels.macroName "A1B" 0 = "YOGI_LEVEL_A1B" ∧ Sample.digitLevels.constantName "A1B" = "A1_B" :=
  ⟨List.all_eq_true.mp (by decide), by decide, by decide, .next (by decide) (.next (by decide) (.last (by decide))),
    by decide, by decide, by decide, by decide⟩

end Naming

end Bindery
