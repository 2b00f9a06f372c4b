import Bindery.Proofs.Words
import Mathlib.Data.List.DropRight

/-!
# Constant case

A name in constant case consists of words of capitals and digits with single underscores between them, and has the
letters and digits of the name that it is made of, in their order. Pascal case keeps the words of such a name as long
as each but the last has two characters, so that the name can be found again.
-/

namespace Bindery

open Text Naming Identifier

namespace Text

variable {p : Char → Bool} {c : Char}

/-- The first character of a text is dropped with those at its end only if all that follow it are dropped. -/
theorem rdropWhile_cons (p : Char → Bool) (c : Char) (text : List Char) :
    (c :: text).rdropWhile p = if text.rdropWhile p = [] ∧ p c = true then [] else c :: text.rdropWhile p := by
  simp only [List.rdropWhile, List.reverse_cons, List.dropWhile_append, List.isEmpty_iff, List.reverse_eq_nil_iff]
  by_cases hnil : text.reverse.dropWhile p = []
  · by_cases hc : p c = true <;> simp [hnil, hc]
  · simp [hnil]

theorem rdropWhile_cons_of_neg (hc : ¬ p c = true) (text : List Char) :
    (c :: text).rdropWhile p = c :: text.rdropWhile p := by
  rw [rdropWhile_cons, if_neg fun hdropped => hc hdropped.2]

end Text

namespace Naming

variable {name : String} {c : Char} {before : Preceding} {text rest : List Char}

/-- A character of a word in constant case. -/
def isCapital (c : Char) : Bool := c.isUpper || c.isDigit

/-- Words of capitals and digits with single underscores between them. -/
inductive IsConstant : List Char → Prop
  | last {c : Char} (hc : isCapital c = true) : IsConstant [c]
  | next {c : Char} {rest : List Char} (hc : isCapital c = true) (hrest : IsConstant rest) : IsConstant (c :: rest)
  | word {c : Char} {rest : List Char} (hc : isCapital c = true) (hrest : IsConstant rest) :
      IsConstant (c :: '_' :: rest)

/-! ## Single characters -/

/-- What holds of a character of an identifier is decided by looking at all of them. -/
theorem of_isPart {P : Char → Prop} (hall : ∀ n < 0x80, isPart (Char.ofNat n) = true → P (Char.ofNat n))
    (h : isPart c = true) : P c :=
  of_isNominal (P := fun c => isPart c = true → P c) (fun n hn _ => hall n hn) (isNominal_of_isPart h) h

theorem isPart_of_isCapital (h : isCapital c = true) : isPart c = true := by
  simp only [isCapital, Bool.or_eq_true] at h
  have halpha : c.isAlpha = (c.isUpper || c.isLower) := rfl
  simp only [isPart, Char.isAlphanum, halpha, Bool.or_eq_true]
  exact Or.inl (h.imp_left Or.inl)

theorem of_isCapital {P : Char → Prop} (hall : ∀ n < 0x80, isCapital (Char.ofNat n) = true → P (Char.ofNat n))
    (h : isCapital c = true) : P c :=
  of_isPart (P := fun c => isCapital c = true → P c) (fun n hn _ => hall n hn) (isPart_of_isCapital h) h

theorem ne_underscore_of_isCapital (h : isCapital c = true) : c ≠ '_' := by
  rintro rfl
  cases h

theorem isSeparator_of_isCapital (h : isCapital c = true) : isSeparator c = false :=
  of_isCapital (P := fun c => isSeparator c = false) (by decide) h

theorem upper_of_isCapital (h : isCapital c = true) : upper c = [c] :=
  of_isCapital (P := fun c => upper c = [c]) (by decide) h

theorem toUpper_of_isCapital (h : isCapital c = true) : c.toUpper = c :=
  of_isCapital (P := fun c => c.toUpper = c) (by decide) h

theorem isCapital_toUpper (hc : isPart c = true) (hword : c ≠ '_') : isCapital c.toUpper = true := by
  revert hword
  exact of_isPart (P := fun c => c ≠ '_' → isCapital c.toUpper = true) (by decide) hc

/-! ## Form -/

namespace IsConstant

theorem ne_nil (h : IsConstant text) : text ≠ [] := by
  cases h <;> exact List.cons_ne_nil _ _

theorem exists_cons (h : IsConstant text) : ∃ c rest, text = c :: rest ∧ isCapital c = true := by
  cases h with
  | last hc => exact ⟨_, _, rfl, hc⟩
  | next hc _ => exact ⟨_, _, rfl, hc⟩
  | word hc _ => exact ⟨_, _, rfl, hc⟩

theorem rdropWhile_eq_self (h : IsConstant text) : text.rdropWhile (· = '_') = text := by
  have hstays {c : Char} (hc : isCapital c = true) : ¬ decide (c = '_') = true := by
    simpa using ne_underscore_of_isCapital hc
  induction h with
  | last hc => rw [rdropWhile_cons_of_neg (hstays hc), List.rdropWhile_nil]
  | next hc _ ih => rw [rdropWhile_cons_of_neg (hstays hc), ih]
  | word hc hrest ih =>
      rw [rdropWhile_cons_of_neg (hstays hc), rdropWhile_cons, ih, if_neg fun hdropped => hrest.ne_nil hdropped.1]

end IsConstant

/-- What may stand behind a capital of a name in constant case. -/
inductive Continues : List Char → Prop
  | nil : Continues []
  | same {rest : List Char} (h : IsConstant rest) : Continues rest
  | word {rest : List Char} (h : IsConstant rest) : Continues ('_' :: rest)

theorem Continues.isConstant (h : Continues rest) (hc : isCapital c = true) : IsConstant (c :: rest) := by
  cases h with
  | nil => exact .last hc
  | same h => exact .next hc h
  | word h => exact .word hc h

theorem Continues.isConstant_append (h : Continues rest) (hsome : text ≠ [])
    (hcapitals : ∀ c ∈ text, isCapital c = true) : IsConstant (text ++ rest) := by
  induction text with
  | nil => exact absurd rfl hsome
  | cons c others ih =>
      obtain ⟨hc, hothers⟩ := List.forall_mem_cons.mp hcapitals
      cases others with
      | nil => exact h.isConstant hc
      | cons second others => exact .next hc (ih (List.cons_ne_nil _ _) hothers)

theorem constantFrom_underscore (before : Preceding) (rest : List Char) :
    constantFrom before ('_' :: rest) =
      (if before = .boundary then [] else ['_']) ++ constantFrom .boundary rest := rfl

/-- A letter or a digit becomes a capital, with an underscore in front of it where a word starts. -/
theorem constantFrom_cons (hc : isPart c = true) (hword : c ≠ '_') (before : Preceding) (rest : List Char) :
    constantFrom before (c :: rest) =
      (if c.isUpper = true ∧ before = .small then ['_'] else [])
        ++ c.toUpper :: constantFrom (if c.isUpper then .other else .small) rest := by
  have hfacts : isSeparator c = false ∧ isUpper c = c.isUpper ∧ upper c = [c.toUpper] ∧
      Preceding.ofChar c = if c.isUpper then .other else .small := by
    revert hword
    exact of_isPart (P := fun c => c ≠ '_' → isSeparator c = false ∧ isUpper c = c.isUpper ∧ upper c = [c.toUpper] ∧
      Preceding.ofChar c = if c.isUpper then .other else .small) (by decide) hc
  obtain ⟨hseparator, hupper, hform, hpreceding⟩ := hfacts
  rw [constantFrom, if_neg (by simp [hseparator]), hupper, hform, hpreceding]
  simp

/-- When underscores are dropped at the end, a letter or a digit stays, and what is in front of it. -/
theorem rdropWhile_constantFrom_cons (hc : isPart c = true) (hword : c ≠ '_') (before : Preceding) (rest : List Char) :
    (constantFrom before (c :: rest)).rdropWhile (· = '_') =
      (if c.isUpper = true ∧ before = .small then ['_'] else [])
        ++ c.toUpper :: (constantFrom (if c.isUpper then .other else .small) rest).rdropWhile (· = '_') := by
  have hstays : ¬ decide (c.toUpper = '_') = true := by
    simpa using ne_underscore_of_isCapital (isCapital_toUpper hc hword)
  rw [constantFrom_cons hc hword]
  split
  · rw [List.singleton_append, rdropWhile_cons, rdropWhile_cons_of_neg hstays, if_neg (by simp), List.singleton_append]
  · rw [List.nil_append, rdropWhile_cons_of_neg hstays, List.nil_append]

theorem toList_constantCase (name : String) :
    (constantCase name).toList = (constantFrom .boundary name.toList).rdropWhile (· = '_') := by
  rw [constantCase, String.toList_ofList, List.rdropWhile]

/-- Only behind a capital does what a text becomes start with an underscore. -/
theorem continues_constantFrom (h : ∀ c ∈ text, isPart c = true) (before : Preceding) :
    Continues ((constantFrom before text).rdropWhile (· = '_')) ∧
      (before = .boundary → (constantFrom before text).rdropWhile (· = '_') = [] ∨
        IsConstant ((constantFrom before text).rdropWhile (· = '_'))) := by
  induction text generalizing before with
  | nil => exact ⟨.nil, fun _ => Or.inl rfl⟩
  | cons c rest ih =>
      obtain ⟨hc, hrest⟩ := List.forall_mem_cons.mp h
      by_cases hword : c = '_'
      · subst hword
        obtain ⟨hcontinues, hconstant⟩ := ih hrest .boundary
        rw [constantFrom_underscore]
        by_cases hbefore : before = .boundary
        · rw [if_pos hbefore, List.nil_append]
          exact ⟨hcontinues, fun _ => hconstant rfl⟩
        -- the underscore is dropped if nothing but underscores follows
        · refine ⟨?_, fun heq => absurd heq hbefore⟩
          rw [if_neg hbefore, List.singleton_append, rdropWhile_cons]
          rcases hconstant rfl with hnil | hconstant
          · rw [if_pos ⟨hnil, by simp⟩]
            exact .nil
          · rw [if_neg fun hdropped => hconstant.ne_nil hdropped.1]
            exact .word hconstant
      · have hconstant := (ih hrest (if c.isUpper then .other else .small)).1.isConstant (isCapital_toUpper hc hword)
        rw [rdropWhile_constantFrom_cons hc hword]
        split
        next hstarts => exact ⟨.word hconstant, fun heq => by simp [heq] at hstarts⟩
        next => exact ⟨.same hconstant, fun _ => Or.inr hconstant⟩

theorem constantCase_eq_empty_or_isConstant (h : ∀ c ∈ name.toList, isPart c = true) :
    constantCase name = "" ∨ IsConstant (constantCase name).toList := by
  rw [← String.toList_eq_nil_iff, toList_constantCase]
  exact (continues_constantFrom h .boundary).2 rfl

/-! ## Letters and digits -/

theorem filter_constantFrom (h : ∀ c ∈ text, isPart c = true) (before : Preceding) :
    (constantFrom before text).filter (· ≠ '_') = (text.filter (· ≠ '_')).map Char.toUpper := by
  induction text generalizing before with
  | nil => rfl
  | cons c rest ih =>
      obtain ⟨hc, hrest⟩ := List.forall_mem_cons.mp h
      by_cases hword : c = '_'
      · subst hword
        rw [constantFrom_underscore, List.filter_append, ih hrest]
        split <;> simp
      · have hupper : c.toUpper ≠ '_' := ne_underscore_of_isCapital (isCapital_toUpper hc hword)
        rw [constantFrom_cons hc hword, List.filter_append, List.filter_cons_of_pos (by simpa using hupper), ih hrest,
          List.filter_cons_of_pos (by simpa using hword), List.map_cons]
        split <;> simp

/-- Apart from the underscores, constant case changes nothing but the case of letters. -/
theorem filter_constantCase (h : ∀ c ∈ name.toList, isPart c = true) :
    (constantCase name).toList.filter (· ≠ '_') = (name.toList.filter (· ≠ '_')).map Char.toUpper := by
  have hdropped : ((constantFrom .boundary name.toList).rtakeWhile (· = '_')).filter (· ≠ '_') = [] := by
    rw [List.filter_eq_nil_iff]
    intro c hc
    simpa using List.mem_rtakeWhile_imp hc
  have hsplit := List.rdropWhile_append_rtakeWhile (p := (· = '_')) (l := constantFrom .boundary name.toList)
  rw [← filter_constantFrom h .boundary, ← hsplit, List.filter_append, hdropped, List.append_nil,
    toList_constantCase]

theorem constantCase_eq_empty_iff (h : ∀ c ∈ name.toList, isPart c = true) :
    constantCase name = "" ↔ ∀ c ∈ name.toList, c = '_' := by
  have hfilter := filter_constantCase h
  constructor
  · intro hempty
    rw [hempty] at hfilter
    have hnone := List.map_eq_nil_iff.mp hfilter.symm
    simpa using List.filter_eq_nil_iff.mp hnone
  · intro hall
    have hnone : name.toList.filter (· ≠ '_') = [] := List.filter_eq_nil_iff.mpr (by simpa using hall)
    rcases constantCase_eq_empty_or_isConstant h with hempty | hconstant
    · exact hempty
    · obtain ⟨c, rest, htext, hc⟩ := hconstant.exists_cons
      rw [hnone, htext, List.filter_cons_of_pos (by simpa using ne_underscore_of_isCapital hc)] at hfilter
      cases hfilter

/-! ## Words -/

/-- Capitals and digits behind the first character of a word are lowered in pascal case, and come back. -/
theorem constantFrom_lower_append (h : ∀ c ∈ text, isCapital c = true) (before : Preceding) (rest : List Char) :
    constantFrom before (text.flatMap lower ++ rest) =
      text ++ constantFrom (if text = [] then before else .small) rest := by
  induction text generalizing before with
  | nil => simp
  | cons c others ih =>
      obtain ⟨hc, hothers⟩ := List.forall_mem_cons.mp h
      have hfacts : lower c = [c.toLower] ∧ isPart c.toLower = true ∧ c.toLower ≠ '_' ∧ c.toLower.isUpper = false ∧
          c.toLower.toUpper = c :=
        of_isCapital (P := fun c => lower c = [c.toLower] ∧ isPart c.toLower = true ∧ c.toLower ≠ '_' ∧
          c.toLower.isUpper = false ∧ c.toLower.toUpper = c) (by decide) hc
      obtain ⟨hlower, hpart, hword, hupper, hback⟩ := hfacts
      rw [List.flatMap_cons, hlower, List.append_assoc, List.singleton_append, constantFrom_cons hpart hword, hback,
        hupper, ih hothers]
      simp

/-- The start of a capitalized word is found again where the word in front of it has two characters. -/
theorem constantFrom_capitalizeWord_append (hupper : text.head?.any Char.isUpper = true)
    (h : ∀ c ∈ text, isCapital c = true) (before : Preceding) (rest : List Char) :
    constantFrom before (capitalizeWord text ++ rest) =
      (if before = .small then ['_'] else []) ++ text ++
        constantFrom (if text.length = 1 then .other else .small) rest := by
  cases text with
  | nil => cases hupper
  | cons c others =>
      obtain ⟨hc, hothers⟩ := List.forall_mem_cons.mp h
      have hfirst : c.isUpper = true := hupper
      rw [capitalizeWord, upper_of_isCapital hc, List.append_assoc, List.singleton_append,
        constantFrom_cons (isPart_of_isCapital hc) (ne_underscore_of_isCapital hc), toUpper_of_isCapital hc, hfirst,
        constantFrom_lower_append hothers]
      simp

/-- Words of capitals and digits that start with a letter, each but the last with at least two characters. -/
structure Divisible (words : List (List Char)) : Prop where
  starts : ∀ word ∈ words, word.head?.any Char.isUpper = true
  capitals : ∀ word ∈ words, ∀ c ∈ word, isCapital c = true
  long : ∀ word ∈ words.dropLast, 2 ≤ word.length

namespace Divisible

variable {word : List Char} {words : List (List Char)}

theorem iff_all : Divisible words ↔
    (words.all fun word => word.head?.any Char.isUpper && word.all isCapital) &&
      words.dropLast.all fun word => decide (2 ≤ word.length) := by
  simp only [Bool.and_eq_true, List.all_eq_true, decide_eq_true_eq]
  constructor
  · exact fun h => ⟨fun word hword => ⟨h.starts word hword, h.capitals word hword⟩, h.long⟩
  · rintro ⟨hwords, hlong⟩
    exact ⟨fun word hword => (hwords word hword).1, fun word hword => (hwords word hword).2, hlong⟩

instance : DecidablePred Divisible := fun _ => decidable_of_iff _ iff_all.symm

theorem ne_nil (h : Divisible words) (hmem : word ∈ words) : word ≠ [] := by
  rintro rfl
  cases h.starts [] hmem

theorem tail (h : Divisible (word :: words)) : Divisible words where
  starts other hother := h.starts other (List.mem_cons_of_mem _ hother)
  capitals other hother := h.capitals other (List.mem_cons_of_mem _ hother)
  long other hother := by
    refine h.long other ?_
    cases words with
    | nil => cases hother
    | cons second rest => exact List.mem_cons_of_mem _ hother

theorem isConstant_intercalate (h : Divisible words) (hsome : words ≠ []) : IsConstant (['_'].intercalate words) := by
  induction words with
  | nil => exact absurd rfl hsome
  | cons word rest ih =>
      have hword := h.ne_nil List.mem_cons_self
      have hcapitals := h.capitals word List.mem_cons_self
      cases rest with
      | nil =>
          rw [List.intercalate_singleton, ← List.append_nil word]
          exact Continues.nil.isConstant_append hword hcapitals
      | cons second others =>
          rw [List.intercalate_cons_cons, List.append_assoc, List.singleton_append]
          exact (Continues.word (ih h.tail (List.cons_ne_nil _ _))).isConstant_append hword hcapitals

theorem words_intercalate (h : Divisible words) : Naming.words (['_'].intercalate words) = words := by
  induction words with
  | nil => rfl
  | cons word rest ih =>
      have hword : Naming.words word = [word] := by
        have hnone : ∀ c ∈ word, isSeparator c = false :=
          fun c hc => isSeparator_of_isCapital (h.capitals word List.mem_cons_self c hc)
        rw [Naming.words, pieces_eq_splitOnP, List.splitOnP_eq_singleton hnone]
        simp [h.ne_nil List.mem_cons_self]
      have hsplit (text rest : List Char) :
          Naming.words (text ++ '_' :: rest) = Naming.words text ++ Naming.words rest := by
        simp only [Naming.words, pieces_eq_splitOnP]
        rw [List.splitOnP_append_cons _ _ (by decide), List.filter_append]
      cases rest with
      | nil => rw [List.intercalate_singleton, hword]
      | cons second others =>
          rw [List.intercalate_cons_cons, List.append_assoc, List.singleton_append, hsplit, hword, ih h.tail,
            List.singleton_append]

/-- The words that stand together in pascal case are told apart again. -/
theorem constantFrom_flatMap (h : Divisible words) (before : Preceding) :
    constantFrom before (words.flatMap capitalizeWord) =
      (if words ≠ [] ∧ before = .small then ['_'] else []) ++ ['_'].intercalate words := by
  induction words generalizing before with
  | nil => simp [constantFrom]
  | cons word rest ih =>
      have hupper := h.starts word List.mem_cons_self
      have hcapitals := h.capitals word List.mem_cons_self
      rw [List.flatMap_cons, constantFrom_capitalizeWord_append hupper hcapitals]
      cases rest with
      | nil => simp [constantFrom]
      | cons second others =>
          have hlong : word.length ≠ 1 := by
            have htwo := h.long word (by simp)
            omega
          rw [if_neg hlong, ih h.tail, List.intercalate_cons_cons]
          simp

theorem constantCase_pascalCase {words : List String} (h : Divisible (words.map String.toList)) :
    constantCase (pascalCase (join "_" words)) = join "_" words := by
  have hjoin : (join "_" words).toList = ['_'].intercalate (words.map String.toList) := String.toList_intercalate
  rw [← String.toList_inj, toList_constantCase, pascalCase, String.toList_ofList, hjoin, h.words_intercalate,
    h.constantFrom_flatMap, if_neg (by simp), List.nil_append]
  by_cases hsome : words.map String.toList = []
  · rw [hsome]
    rfl
  · exact (h.isConstant_intercalate hsome).rdropWhile_eq_self

end Divisible

/-- Constant case loses no letter or digit of an identifier, and pascal case no word of a name in constant case of
which each word but the last has two characters. -/
theorem constantCase_lossless :
    (∀ name : String, (∀ c ∈ name.toList, isPart c = true) →
      (constantCase name = "" ↔ ∀ c ∈ name.toList, c = '_') ∧
      (constantCase name ≠ "" → IsConstant (constantCase name).toList) ∧
      (constantCase name).toList.filter (· ≠ '_') = (name.toList.filter (· ≠ '_')).map Char.toUpper) ∧
    (∀ words : List String, Divisible (words.map String.toList) →
      constantCase (pascalCase (join "_" words)) = join "_" words) ∧
    ∀ words others : List String, Divisible (words.map String.toList) → Divisible (others.map String.toList) →
      (pascalCase (join "_" words) = pascalCase (join "_" others) → join "_" words = join "_" others) ∧
      (kName (join "_" words) = kName (join "_" others) → join "_" words = join "_" others) := by
  have hpascal {words others : List String} (h : Divisible (words.map String.toList))
      (h' : Divisible (others.map String.toList))
      (hsame : pascalCase (join "_" words) = pascalCase (join "_" others)) : join "_" words = join "_" others := by
    rw [← h.constantCase_pascalCase, hsame, h'.constantCase_pascalCase]
  refine ⟨fun name h => ?_, fun words h => h.constantCase_pascalCase, fun words others h h' => ?_⟩
  · exact ⟨constantCase_eq_empty_iff h, (constantCase_eq_empty_or_isConstant h).resolve_left, filter_constantCase h⟩
  · refine ⟨hpascal h h', fun hsame => hpascal h h' ?_⟩
    rwa [kName, kName, String.append_right_inj] at hsame

/-- The words of `A1_B` and `A1B` are told apart by the case of their letters. -/
theorem constantCase_lossless_signal :
    (∀ c ∈ "__usr1Signal_".toList, isPart c = true) ∧ constantCase "__usr1Signal_" = "USR1_SIGNAL" ∧
      (constantCase "__usr1Signal_").toList.filter (· ≠ '_') =
        ("__usr1Signal_".toList.filter (· ≠ '_')).map Char.toUpper ∧
      IsConstant (constantCase "__usr1Signal_").toList ∧
      Divisible (["A1", "B"].map String.toList) ∧ Divisible (["A1B"].map String.toList) ∧
      constantCase (pascalCase (join "_" ["A1", "B"])) = join "_" ["A1", "B"] ∧
      kName (join "_" ["A1", "B"]) ≠ kName (join "_" ["A1B"]) := by
  obtain ⟨hkept, hback, hinjective⟩ := constantCase_lossless
  have hparts : ∀ c ∈ "__usr1Signal_".toList, isPart c = true := List.all_eq_true.mp (by decide)
  obtain ⟨-, hform, hletters⟩ := hkept "__usr1Signal_" hparts
  have hapart : Divisible (["A1", "B"].map String.toList) := by decide
  have htogether : Divisible (["A1B"].map String.toList) := by decide
  have hne : join "_" ["A1", "B"] ≠ join "_" ["A1B"] := by decide
  exact ⟨hparts, by decide, hletters, hform (by decide), hapart, htogether, hback _ hapart,
    fun hsame => hne ((hinjective _ _ hapart htogether).2 hsame)⟩

end Naming

end Bindery
