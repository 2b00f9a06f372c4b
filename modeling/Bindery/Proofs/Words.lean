import Bindery.Naming
import Bindery.Proofs.Search
import Bindery.Proofs.Members
import Bindery.Text.Column

/-!
# Words of a line

A line is read word by word: blanks end a word and belong to none. The names and numbers of generated
code consist of graphic characters of ASCII, so each of them stays within one word.
-/

namespace Bindery.Text

variable {c : Char} {word before after text : List Char}

theorem words_append_cons (hc : isBlank c = true) :
    words (before ++ c :: after) = words before ++ words after := by
  unfold words
  rw [pieces_eq_splitOnP, List.splitOnP_append_cons _ _ hc, List.filter_append, pieces_eq_splitOnP,
    pieces_eq_splitOnP]

@[simp]
theorem words_nil : words [] = [] := rfl

theorem words_cons (hc : isBlank c = true) : words (c :: text) = words text := by
  have happend : words ([] ++ c :: text) = words [] ++ words text := words_append_cons hc
  simpa using happend

theorem words_blanks_append (h : ∀ c ∈ before, isBlank c = true) :
    words (before ++ text) = words text := by
  induction before with
  | nil => rfl
  | cons c rest ih =>
      obtain ⟨hc, hrest⟩ := List.forall_mem_cons.mp h
      rw [List.cons_append, words_cons hc, ih hrest]

theorem words_append_blanks (h : ∀ c ∈ after, isBlank c = true) :
    words (text ++ after) = words text := by
  cases after with
  | nil => rw [List.append_nil]
  | cons c rest =>
      obtain ⟨hc, hrest⟩ := List.forall_mem_cons.mp h
      rw [words_append_cons hc, ← List.append_nil rest, words_blanks_append hrest, words_nil,
        List.append_nil]

theorem words_of_forall (hsome : word ≠ []) (h : ∀ c ∈ word, isBlank c = false) :
    words word = [word] := by
  unfold words
  rw [pieces_eq_splitOnP, List.splitOnP_eq_singleton h]
  simp [hsome]

/-- The first word of a line ends at a blank or at the end of the line. -/
theorem words_append_of_head? (hsome : word ≠ []) (h : ∀ c ∈ word, isBlank c = false)
    (hafter : ∀ c ∈ after.head?, isBlank c = true) : words (word ++ after) = word :: words after := by
  cases after with
  | nil => rw [List.append_nil, words_of_forall hsome h, words_nil]
  | cons c rest =>
      have hc := hafter c rfl
      rw [words_append_cons hc, words_of_forall hsome h, words_cons hc, List.singleton_append]

/-- A word goes up to the next blank. -/
theorem isBlank_of_mem_head?_dropWhile (text : List Char) :
    ∀ c ∈ (text.dropWhile (!isBlank ·)).head?, isBlank c = true := by
  intro c hc
  have hstop := List.head?_dropWhile_not (!isBlank ·) text
  rw [Option.mem_def.mp hc] at hstop
  simpa using hstop

/-- Whatever follows, the first word starts with the characters before the first blank. -/
theorem exists_words_append (hsome : word ≠ []) (h : ∀ c ∈ word, isBlank c = false) :
    ∃ rest others, words (word ++ after) = (word ++ rest) :: others := by
  refine ⟨after.takeWhile (!isBlank ·), words (after.dropWhile (!isBlank ·)), ?_⟩
  have hsplit : word ++ after = (word ++ after.takeWhile (!isBlank ·)) ++ after.dropWhile (!isBlank ·) := by
    rw [List.append_assoc, List.takeWhile_append_dropWhile]
  rw [hsplit]
  refine words_append_of_head? (by simp [hsome]) ?_ ?_
  · refine List.forall_mem_append.mpr ⟨h, fun c hc => ?_⟩
    simpa using List.all_eq_true.mp List.all_takeWhile c hc
  · exact isBlank_of_mem_head?_dropWhile after

/-- Of the blank characters only spaces stand in a single line. -/
theorem not_mem_singleLine (hblank : isBlank c = true) (hspace : c ≠ ' ') (text : String) :
    c ∉ (singleLine text).toList := by
  refine not_mem_join (by simpa using hspace) fun part hpart => ?_
  obtain ⟨word, hword, rfl⟩ := List.mem_map.mp hpart
  rw [String.toList_ofList]
  intro hmem
  rw [isBreak_eq_false_of_mem_pieces (List.mem_filter.mp hword).1 hmem] at hblank
  cases hblank

/-- A character of ASCII that is neither blank nor a control character. -/
def isGraphic (c : Char) : Bool := 0x21 ≤ c.toNat && c.toNat < 0x7f

theorem isBlank_of_isGraphic (h : isGraphic c = true) : isBlank c = false := by
  simp only [isGraphic, Bool.and_eq_true, decide_eq_true_eq] at h
  simp only [isBlank, Bool.or_eq_false_iff, Bool.and_eq_false_iff, decide_eq_false_iff_not]
  omega

/-- A character of a name or a number: a letter, a digit, an underscore or a sign. -/
def isNominal (c : Char) : Bool := c.isAlphanum || c = '_' || c = '+' || c = '-'

theorem isGraphic_of_isNominal (h : isNominal c = true) : isGraphic c = true := by
  simp only [isNominal, Bool.or_eq_true, decide_eq_true_eq] at h
  rcases h with ((halphanum | rfl) | rfl) | rfl
  · delta Char.isAlphanum Char.isAlpha Char.isUpper Char.isLower Char.isDigit at halphanum
    simp [UInt32.le_iff_toNat_le] at halphanum
    simp only [isGraphic, Bool.and_eq_true, decide_eq_true_eq]
    omega
  · decide
  · decide
  · decide

/-- What holds of a character of a name is decided by looking at all of them. -/
theorem of_isNominal {P : Char → Prop}
    (hall : ∀ n < 0x80, isNominal (Char.ofNat n) = true → P (Char.ofNat n)) (h : isNominal c = true) :
    P c := by
  have hc := hall c.toNat
  rw [Char.ofNat_toNat] at hc
  refine hc ?_ h
  have hgraphic := isGraphic_of_isNominal h
  simp only [isGraphic, Bool.and_eq_true, decide_eq_true_eq] at hgraphic
  omega

theorem isNominal_upper (h : isNominal c = true) : ∀ d ∈ upper c, isNominal d = true :=
  List.all_eq_true.mp
    (of_isNominal (P := fun c => (upper c).all isNominal = true) (by decide) h)

theorem isNominal_lower (h : isNominal c = true) : ∀ d ∈ lower c, isNominal d = true :=
  List.all_eq_true.mp
    (of_isNominal (P := fun c => (lower c).all isNominal = true) (by decide) h)

theorem eq_of_ofNat_eq_underscore {n : Nat} (h : Char.ofNat n = '_') : n = 0x5f := by
  by_cases hvalid : n.isValidChar
  · rw [Char.ofNat, dif_pos hvalid] at h
    exact congrArg Char.toNat h
  · rw [Char.ofNat, dif_neg hvalid] at h
    exact absurd h (by decide)

/-- A table of letter case leads only from an underscore to one when none of its ranges and longer forms
has one. -/
theorem ne_underscore_of_mem_mapCase {shifts : List (Nat × Nat × Nat × Int)} {long : List (Nat × List Nat)}
    (hshifts : ∀ range ∈ shifts, range.2.1 + range.2.2.2 < 0x5f ∨ 0x5f < range.1 + range.2.2.2)
    (hlong : ∀ entry ∈ long, 0x5f ∉ entry.2) (hc : c ≠ '_') : ∀ d ∈ mapCase shifts long c, d ≠ '_' := by
  intro d hd
  simp only [mapCase] at hd
  split at hd
  next form hform =>
    obtain ⟨n, hn, rfl⟩ := List.mem_map.mp hd
    intro heq
    exact hlong _ (mem_of_lookup hform) (eq_of_ofNat_eq_underscore heq ▸ hn)
  next =>
    split at hd
    next first last step shift hfind =>
      have hrange := List.find?_some hfind
      simp only [Bool.and_eq_true, decide_eq_true_eq] at hrange
      have hfar : last + shift < 0x5f ∨ 0x5f < first + shift :=
        hshifts _ (List.mem_of_find?_eq_some hfind)
      rw [List.mem_singleton.mp hd]
      intro heq
      have hn := eq_of_ofNat_eq_underscore heq
      omega
    next => rwa [List.mem_singleton.mp hd]

theorem ne_underscore_of_mem_upper (hc : c ≠ '_') : ∀ d ∈ upper c, d ≠ '_' := by
  unfold upper
  split
  next hascii =>
    have hall : ∀ n < 0x80, Char.ofNat n ≠ '_' → (Char.ofNat n).toUpper ≠ '_' := by decide
    have hupper := hall c.toNat hascii
    rw [Char.ofNat_toNat] at hupper
    simpa using hupper hc
  next => exact ne_underscore_of_mem_mapCase (by decide +kernel) (by decide) hc

theorem ne_underscore_of_mem_lower (hc : c ≠ '_') : ∀ d ∈ lower c, d ≠ '_' := by
  unfold lower
  split
  next hascii =>
    have hall : ∀ n < 0x80, Char.ofNat n ≠ '_' → (Char.ofNat n).toLower ≠ '_' := by decide
    have hlower := hall c.toNat hascii
    rw [Char.ofNat_toNat] at hlower
    simpa using hlower hc
  next => exact ne_underscore_of_mem_mapCase (by decide +kernel) (by decide) hc

/-- A text of graphic characters only. -/
def Graphic (text : String) : Prop := ∀ c ∈ text.toList, isGraphic c = true

theorem graphic_append {first second : String} :
    Graphic (first ++ second) ↔ Graphic first ∧ Graphic second := by
  simp only [Graphic, String.toList_append, List.forall_mem_append]

theorem Graphic.isBlank {text : String} (h : Graphic text) : ∀ c ∈ text.toList, isBlank c = false :=
  fun c hc => isBlank_of_isGraphic (h c hc)

theorem words_graphic_append {first : String} (hsome : first.toList ≠ []) (h : Graphic first)
    (hafter : ∀ c ∈ after.head?, Text.isBlank c = true) :
    words (first.toList ++ after) = first.toList :: words after :=
  words_append_of_head? hsome h.isBlank hafter

theorem words_graphic_append_cons {first : String} (hsome : first.toList ≠ []) (h : Graphic first)
    (hc : Text.isBlank c = true) :
    words (first.toList ++ c :: text) = first.toList :: words text := by
  rw [words_graphic_append hsome h (by simpa using hc), words_cons hc]

theorem words_graphic {first : String} (hsome : first.toList ≠ []) (h : Graphic first) :
    words first.toList = [first.toList] :=
  words_of_forall hsome h.isBlank

instance (text : String) : Decidable (Graphic text) :=
  decidable_of_iff (text.toList.all isGraphic = true) List.all_eq_true

/-- A text that consists of characters of names and numbers. -/
def Nominal (text : String) : Prop := ∀ c ∈ text.toList, isNominal c = true

instance (text : String) : Decidable (Nominal text) :=
  decidable_of_iff (text.toList.all isNominal = true) List.all_eq_true

theorem Nominal.graphic {text : String} (h : Nominal text) : Graphic text :=
  fun c hc => isGraphic_of_isNominal (h c hc)

theorem nominal_append {first second : String} :
    Nominal (first ++ second) ↔ Nominal first ∧ Nominal second := by
  simp only [Nominal, String.toList_append, List.forall_mem_append]

theorem nominal_toString_nat (number : Nat) : Nominal (toString number) := by
  intro c hc
  have hmem : c ∈ Nat.toDigits 10 number := Nat.toList_repr ▸ hc
  have hdigit : c.isDigit = true := Nat.isDigit_of_mem_toDigits (by decide) (by decide) hmem
  simp [isNominal, Char.isAlphanum, hdigit]

theorem nominal_toString_int (number : Int) : Nominal (toString number) := by
  cases number with
  | ofNat number => exact nominal_toString_nat number
  | negSucc number => exact nominal_append.mpr ⟨by decide, nominal_toString_nat _⟩

theorem toList_join_empty (texts : List String) :
    (join "" texts).toList = texts.flatMap String.toList := by
  rw [join, String.toList_intercalate]
  induction texts with
  | nil => rfl
  | cons first rest ih =>
      cases rest with
      | nil => simp
      | cons second others =>
          rw [List.map_cons, List.map_cons, List.intercalate_cons_cons, List.flatMap_cons, ← ih]
          simp

end Bindery.Text

namespace Bindery

open Text Naming

variable {name : String}

theorem isPart_of_isSpelled {text : List Char} (h : Identifier.isSpelled text = true) :
    ∀ c ∈ text, Identifier.isPart c = true := by
  cases text with
  | nil => cases h
  | cons first rest =>
      simp only [Identifier.isSpelled, Bool.and_eq_true, List.all_eq_true] at h
      obtain ⟨hstart, hrest⟩ := h
      refine List.forall_mem_cons.mpr ⟨?_, hrest⟩
      simp only [Identifier.isStart, Bool.or_eq_true] at hstart
      simp only [Identifier.isPart, Char.isAlphanum, Bool.or_eq_true]
      exact hstart.imp_left Or.inl

theorem isNominal_of_isPart {c : Char} (h : Identifier.isPart c = true) : isNominal c = true := by
  simp only [Identifier.isPart, Bool.or_eq_true, decide_eq_true_eq] at h
  simp only [isNominal, Bool.or_eq_true, decide_eq_true_eq]
  exact Or.inl (Or.inl h)

theorem nominal_of_isValid (h : Identifier.IsValid name) : Nominal name :=
  fun c hc => isNominal_of_isPart (isPart_of_isSpelled h.1 c hc)

theorem nominal_of_spells {value : Int} (h : Toml.Spells name.toList value) : Nominal name := by
  have hdigits (digits : List Char) (hdigits : ∀ c ∈ digits, c.isDigit = true) :
      ∀ c ∈ digits, isNominal c = true := by
    intro c hc
    simp [isNominal, Char.isAlphanum, hdigits c hc]
  unfold Nominal
  generalize name.toList = text at h ⊢
  cases h with
  | unsigned _ h => exact hdigits _ h
  | positive _ h => exact List.forall_mem_cons.mpr ⟨by decide, hdigits _ h⟩
  | negative _ h => exact List.forall_mem_cons.mpr ⟨by decide, hdigits _ h⟩

namespace Naming

variable {P : Char → Prop}

/-- What the two forms of letters keep, and holds of the characters that separate no words, holds of the
characters of a name in pascal case. -/
theorem forall_mem_pascalCase (hupper : ∀ c, P c → ∀ d ∈ upper c, P d)
    (hlower : ∀ c, P c → ∀ d ∈ lower c, P d)
    (h : ∀ c ∈ name.toList, isSeparator c = false → P c) : ∀ c ∈ (pascalCase name).toList, P c := by
  have hword (word : List Char) (hall : ∀ c ∈ word, P c) : ∀ c ∈ capitalizeWord word, P c := by
    cases word with
    | nil => simp [capitalizeWord]
    | cons first rest =>
        obtain ⟨hfirst, hrest⟩ := List.forall_mem_cons.mp hall
        refine List.forall_mem_append.mpr ⟨hupper first hfirst, ?_⟩
        rintro c hc
        obtain ⟨d, hd, hmem⟩ := List.mem_flatMap.mp hc
        exact hlower d (hrest d hd) c hmem
  intro c hc
  rw [pascalCase, String.toList_ofList] at hc
  obtain ⟨word, hmem, hcap⟩ := List.mem_flatMap.mp hc
  have hpiece := (List.mem_filter.mp hmem).1
  exact hword word
    (fun d hd => h d ((infix_of_mem_pieces hpiece).subset hd) (isBreak_eq_false_of_mem_pieces hpiece hd))
    c hcap

theorem forall_mem_constantCase (hupper : ∀ c, P c → ∀ d ∈ upper c, P d) (hseparator : P '_')
    (h : ∀ c ∈ name.toList, isSeparator c = false → P c) : ∀ c ∈ (constantCase name).toList, P c := by
  have hfrom (before : Preceding) (text : List Char) (hall : ∀ c ∈ text, isSeparator c = false → P c) :
      ∀ c ∈ constantFrom before text, P c := by
    induction text generalizing before with
    | nil => simp [constantFrom]
    | cons c rest ih =>
        obtain ⟨hc, hrest⟩ := List.forall_mem_cons.mp hall
        rw [constantFrom]
        split
        · refine List.forall_mem_append.mpr ⟨?_, ih _ hrest⟩
          split <;> simp [hseparator]
        next hword =>
          refine List.forall_mem_append.mpr ⟨List.forall_mem_append.mpr
            ⟨?_, hupper c (hc (Bool.eq_false_iff.mpr hword))⟩, ih _ hrest⟩
          split <;> simp [hseparator]
  intro c hc
  rw [constantCase, String.toList_ofList, List.mem_reverse] at hc
  exact hfrom _ _ h c (List.mem_reverse.mp ((List.dropWhile_sublist _).subset hc))

theorem nominal_pascalCase (h : Nominal name) : Nominal (pascalCase name) :=
  forall_mem_pascalCase (fun _ => isNominal_upper) (fun _ => isNominal_lower) fun c hc _ => h c hc

/-- In pascal case nothing separates the words. -/
theorem underscore_not_mem_pascalCase (name : String) : '_' ∉ (pascalCase name).toList := by
  intro hmem
  refine forall_mem_pascalCase (P := (· ≠ '_')) (fun _ => ne_underscore_of_mem_upper)
    (fun _ => ne_underscore_of_mem_lower) (fun c _ hword => ?_) '_' hmem rfl
  rintro rfl
  exact absurd hword (by decide)

theorem underscore_not_mem_kName (name : String) : '_' ∉ (kName name).toList := by
  rw [kName, String.toList_append, List.mem_append, not_or]
  exact ⟨by decide, underscore_not_mem_pascalCase name⟩

theorem nominal_constantCase (h : Nominal name) : Nominal (constantCase name) :=
  forall_mem_constantCase (fun _ => isNominal_upper) (by decide) fun c hc _ => h c hc

theorem nominal_kName (h : Nominal name) : Nominal (kName name) :=
  nominal_append.mpr ⟨by decide, nominal_pascalCase h⟩

end Naming

end Bindery
