import Bindery.Proofs.FlagLines
import Bindery.Proofs.Loading
import Bindery.Proofs.MemberLines
import Mathlib.Data.List.DropRight

/-!
# Names of members

The names that the targets derive for members and flags are spelled like identifiers, except where the case
conversions take away what stands before a digit, or a key has a sign. These cases are listed here.
-/

namespace Bindery

open Text Naming Identifier Enumeration

namespace Identifier

variable {c : Char} {text first second : List Char}

/-- A text is spelled like an identifier when all its characters may stand in one and the first may start it. -/
theorem isSpelled_iff :
    isSpelled text = true ↔ (∀ c ∈ text, isPart c = true) ∧ text.head?.any isStart = true := by
  constructor
  · intro h
    refine ⟨isPart_of_isSpelled h, ?_⟩
    cases text with
    | nil => cases h
    | cons c rest => exact (Bool.and_eq_true_iff.mp h).1
  · rintro ⟨hparts, hstart⟩
    cases text with
    | nil => cases hstart
    | cons c rest =>
        exact Bool.and_eq_true_iff.mpr ⟨hstart, List.all_eq_true.mpr (List.forall_mem_cons.mp hparts).2⟩

theorem isSpelled_append_iff (h : isSpelled first = true) :
    isSpelled (first ++ second) = true ↔ ∀ c ∈ second, isPart c = true :=
  ⟨fun hspelled => (List.forall_mem_append.mp (isPart_of_isSpelled hspelled)).2, isSpelled_append h⟩

/-- A character of a name or a number may stand in an identifier unless it is a sign. -/
theorem isPart_iff_of_isNominal (h : isNominal c = true) : isPart c = true ↔ c ≠ '+' ∧ c ≠ '-' := by
  have hall : decide (isPart c = true ↔ c ≠ '+' ∧ c ≠ '-') = true :=
    of_isNominal (P := fun c => decide (isPart c = true ↔ c ≠ '+' ∧ c ≠ '-') = true) (by decide) h
  exact of_decide_eq_true hall

theorem isStart_iff_of_isPart (h : isPart c = true) : isStart c = true ↔ ¬ c.isDigit = true := by
  have hall : decide (isStart c = true ↔ ¬ c.isDigit = true) || !isPart c :=
    of_isNominal (P := fun c => decide (isStart c = true ↔ ¬ c.isDigit = true) || !isPart c) (by decide)
      (isNominal_of_isPart h)
  simpa [h] using hall

theorem isPart_of_isDigit (h : c.isDigit = true) : isPart c = true := by
  simp [isPart, Char.isAlphanum, h]

theorem isStart_eq_false_of_isDigit (h : c.isDigit = true) : isStart c = false := by
  simpa [h] using isStart_iff_of_isPart (isPart_of_isDigit h)

end Identifier

namespace Naming

variable {name : String} {c : Char} {text : List Char}

/-- Whether the first character of a name that separates no words is a letter. -/
def leadsWithLetter (name : String) : Bool := (name.toList.find? (!isSeparator ·)).any Char.isAlpha

/-! ## First characters -/

theorem head?_upper (h : isNominal c = true) : (upper c).head? = some c.toUpper := by
  rw [upper_of_ascii]
  · rfl
  · have hgraphic := isGraphic_of_isNominal h
    simp only [isGraphic, Bool.and_eq_true, decide_eq_true_eq] at hgraphic
    omega

theorem words_cons_of_isSeparator (h : isSeparator c = true) : words (c :: text) = words text := by
  rw [words, pieces, if_pos h, List.filter_cons_of_neg (by simp), words]

theorem exists_words_cons (h : isSeparator c = false) :
    ∃ word others, words (c :: text) = (c :: word) :: others := by
  obtain ⟨word, rest, hpieces⟩ := exists_pieces isSeparator text
  refine ⟨word, rest.filter fun word => !word.isEmpty, ?_⟩
  rw [words, pieces, if_neg (by simp [h]), hpieces, List.modifyHead_cons, List.filter_cons_of_pos (by simp)]

/-- A name in pascal case starts with the first character that separates no words. -/
theorem head?_pascalCase (h : Nominal name) :
    (pascalCase name).toList.head? = (name.toList.find? (!isSeparator ·)).map Char.toUpper := by
  rw [pascalCase, String.toList_ofList]
  unfold Nominal at h
  generalize name.toList = text at h ⊢
  induction text with
  | nil => rfl
  | cons c rest ih =>
      obtain ⟨hc, hrest⟩ := List.forall_mem_cons.mp h
      cases hseparator : isSeparator c with
      | true =>
          rw [words_cons_of_isSeparator hseparator, List.find?_cons_of_neg (by simp [hseparator])]
          exact ih hrest
      | false =>
          obtain ⟨word, others, hwords⟩ :
              ∃ word others, words (c :: rest) = (c :: word) :: others := exists_words_cons hseparator
          rw [hwords, List.find?_cons_of_pos (by simp [hseparator]), List.flatMap_cons, capitalizeWord,
            List.append_assoc, List.head?_append, head?_upper hc]
          rfl

theorem head?_constantFrom (h : ∀ c ∈ text, isNominal c = true) :
    (constantFrom .boundary text).head? = (text.find? (!isSeparator ·)).map Char.toUpper := by
  induction text with
  | nil => rfl
  | cons c rest ih =>
      obtain ⟨hc, hrest⟩ := List.forall_mem_cons.mp h
      cases hseparator : isSeparator c with
      | true =>
          rw [constantFrom, if_pos hseparator, List.find?_cons_of_neg (by simp [hseparator])]
          exact ih hrest
      | false =>
          rw [constantFrom, if_neg (by simp [hseparator]), List.find?_cons_of_pos (by simp [hseparator]),
            if_neg (by simp), List.nil_append, List.head?_append, head?_upper hc]
          rfl

theorem toUpper_ne_underscore (h : isNominal c = true) (hword : isSeparator c = false) : c.toUpper ≠ '_' := by
  have hall : decide (isSeparator c = false → c.toUpper ≠ '_') = true :=
    of_isNominal (P := fun c => decide (isSeparator c = false → c.toUpper ≠ '_') = true) (by decide) h
  exact of_decide_eq_true hall hword

/-- What is left of a text when the underscores at its end are dropped still has the character that it starts
with. -/
theorem head?_rdropWhile_underscore (h : text.head? ≠ some '_') :
    (text.rdropWhile (· = '_')).head? = text.head? := by
  obtain ⟨rest, hrest⟩ := List.rdropWhile_prefix (· = '_') (l := text)
  cases hdropped : text.rdropWhile (· = '_') with
  | nil =>
      have hall := List.rdropWhile_eq_nil_iff.mp hdropped
      cases text with
      | nil => rfl
      | cons c rest =>
          have hc : c = '_' := by simpa using hall c List.mem_cons_self
          exact absurd (by rw [hc]; rfl) h
  | cons c others =>
      rw [← hrest, hdropped]
      rfl

/-- So does a name in constant case, of which no underscore is left at the front. -/
theorem head?_constantCase (h : Nominal name) :
    (constantCase name).toList.head? = (name.toList.find? (!isSeparator ·)).map Char.toUpper := by
  have hfrom := head?_constantFrom h
  rw [constantCase, String.toList_ofList, ← List.rdropWhile, head?_rdropWhile_underscore, hfrom]
  rw [hfrom]
  intro hhead
  obtain ⟨c, hfind, hupper⟩ := Option.map_eq_some_iff.mp hhead
  have hword : isSeparator c = false := by simpa using List.find?_some hfind
  exact toUpper_ne_underscore (h c (List.mem_of_find?_eq_some hfind)) hword hupper

theorem isStart_toUpper_iff (h : isNominal c = true) (hword : isSeparator c = false) :
    isStart c.toUpper = true ↔ c.isAlpha = true := by
  have hall : decide (isSeparator c = false → (isStart c.toUpper = true ↔ c.isAlpha = true)) = true :=
    of_isNominal (P := fun c => decide (isSeparator c = false → (isStart c.toUpper = true ↔ c.isAlpha = true)) = true)
      (by decide) h
  exact of_decide_eq_true hall hword

theorem any_isStart_toUpper_iff (h : Nominal name) :
    ((name.toList.find? (!isSeparator ·)).map Char.toUpper).any isStart = true ↔ leadsWithLetter name = true := by
  unfold leadsWithLetter
  cases hfind : name.toList.find? (!isSeparator ·) with
  | none => simp
  | some c =>
      have hword : isSeparator c = false := by simpa using List.find?_some hfind
      simpa using isStart_toUpper_iff (h c (List.mem_of_find?_eq_some hfind)) hword

/-! ## All characters -/

/-- The words have the characters of a name that separate none. -/
theorem flatten_words (text : List Char) : (words text).flatten = text.filter (!isSeparator ·) := by
  rw [words, List.flatten_filter_not_isEmpty]
  induction text with
  | nil => rfl
  | cons c rest ih =>
      rw [pieces]
      split
      next hseparator => rw [List.filter_cons_of_neg (by simp [hseparator]), List.flatten_cons, ih, List.nil_append]
      next hword =>
        obtain ⟨word, others, hpieces⟩ := exists_pieces isSeparator rest
        rw [hpieces, List.flatten_cons] at ih
        rw [hpieces, List.modifyHead_cons, List.filter_cons_of_pos (by simp [hword]), List.flatten_cons, ← ih,
          List.cons_append]

/-- A character of a word that has no other form stays in pascal case. -/
theorem mem_pascalCase (hc : c ∈ name.toList) (hword : isSeparator c = false) (hupper : upper c = [c])
    (hlower : lower c = [c]) : c ∈ (pascalCase name).toList := by
  have hflatten : c ∈ (words name.toList).flatten := by
    rw [flatten_words]
    exact List.mem_filter.mpr ⟨hc, by simp [hword]⟩
  obtain ⟨word, hmem, hc⟩ := List.mem_flatten.mp hflatten
  rw [pascalCase, String.toList_ofList]
  refine List.mem_flatMap.mpr ⟨word, hmem, ?_⟩
  cases word with
  | nil => cases hc
  | cons first rest =>
      rw [capitalizeWord, List.mem_append]
      rcases List.mem_cons.mp hc with rfl | hrest
      · exact Or.inl (by simp [hupper])
      · exact Or.inr (List.mem_flatMap.mpr ⟨c, hrest, by simp [hlower]⟩)

theorem mem_constantFrom (before : Preceding) (hc : c ∈ text) (hword : isSeparator c = false)
    (hupper : upper c = [c]) : c ∈ constantFrom before text := by
  induction text generalizing before with
  | nil => cases hc
  | cons first rest ih =>
      rw [constantFrom]
      rcases List.mem_cons.mp hc with rfl | hrest
      · simp [hword, hupper]
      · split
        · exact List.mem_append_right _ (ih _ hrest)
        · exact List.mem_append_right _ (ih _ hrest)

theorem mem_constantCase (hc : c ∈ name.toList) (hword : isSeparator c = false) (hupper : upper c = [c]) :
    c ∈ (constantCase name).toList := by
  have hmem := mem_constantFrom .boundary hc hword hupper
  have hsplit := List.rdropWhile_append_rtakeWhile (p := (· = '_')) (l := constantFrom .boundary name.toList)
  rw [← hsplit, List.mem_append] at hmem
  rw [constantCase, String.toList_ofList, ← List.rdropWhile]
  refine hmem.resolve_right fun hdropped => ?_
  obtain rfl : c = '_' := by simpa using List.mem_rtakeWhile_imp hdropped
  cases hword

/-- A character that separates no words may stand in an identifier unless it is a plus sign. -/
theorem isPart_of_word (h : Nominal name) (hplus : '+' ∉ name.toList) :
    ∀ c ∈ name.toList, isSeparator c = false → isPart c = true := by
  intro c hc hword
  refine (isPart_iff_of_isNominal (h c hc)).mpr ⟨?_, ?_⟩
  · rintro rfl
    exact hplus hc
  · rintro rfl
    cases hword

theorem forall_isPart_pascalCase_iff (h : Nominal name) :
    (∀ c ∈ (pascalCase name).toList, isPart c = true) ↔ '+' ∉ name.toList := by
  constructor
  · intro hparts hplus
    exact absurd (hparts '+' (mem_pascalCase hplus (by decide) (by decide) (by decide))) (by decide)
  · exact fun hplus => forall_mem_pascalCase (fun _ => isPart_upper) (fun _ => isPart_lower) (isPart_of_word h hplus)

theorem forall_isPart_constantCase_iff (h : Nominal name) :
    (∀ c ∈ (constantCase name).toList, isPart c = true) ↔ '+' ∉ name.toList := by
  constructor
  · intro hparts hplus
    exact absurd (hparts '+' (mem_constantCase hplus (by decide) (by decide))) (by decide)
  · exact fun hplus => forall_mem_constantCase (fun _ => isPart_upper) (by decide) (isPart_of_word h hplus)

theorem isSpelled_pascalCase_iff (h : Nominal name) :
    isSpelled (pascalCase name).toList = true ↔ '+' ∉ name.toList ∧ leadsWithLetter name = true := by
  rw [isSpelled_iff, forall_isPart_pascalCase_iff h, head?_pascalCase h, any_isStart_toUpper_iff h]

theorem isSpelled_constantCase_iff (h : Nominal name) :
    isSpelled (constantCase name).toList = true ↔ '+' ∉ name.toList ∧ leadsWithLetter name = true := by
  rw [isSpelled_iff, forall_isPart_constantCase_iff h, head?_constantCase h, any_isStart_toUpper_iff h]

theorem isSpelled_kName_iff (h : Nominal name) : isSpelled (kName name).toList = true ↔ '+' ∉ name.toList := by
  rw [kName, String.toList_append, isSpelled_append_iff (by decide), forall_isPart_pascalCase_iff h]

end Naming

/-- What a name in pascal case is spelled like does not depend on the digits behind it. -/
theorem isSpelled_pascalCase_append_iff {name : String} {digits : List Char} (h : Nominal name)
    (hplus : '+' ∉ name.toList) (hdigits : ∀ c ∈ digits, isPart c = true)
    (hfirst : digits.head?.any Char.isDigit = true) :
    isSpelled ((pascalCase name).toList ++ digits) = true ↔ leadsWithLetter name = true := by
  have hparts := (forall_isPart_pascalCase_iff h).mpr hplus
  rw [isSpelled_iff, and_iff_right (List.forall_mem_append.mpr ⟨hparts, hdigits⟩), ← any_isStart_toUpper_iff h,
    ← head?_pascalCase h]
  cases (pascalCase name).toList with
  | nil =>
      obtain ⟨c, hhead, hdigit⟩ := (Option.any_eq_true _ _).mp hfirst
      simp [hhead, isStart_eq_false_of_isDigit hdigit]
  | cons c rest => rfl

theorem isSpelled_append_underscore_iff {name : String} {rest : List Char}
    (hparts : ∀ c ∈ name.toList, isPart c = true) (hrest : ∀ c ∈ rest, isPart c = true) :
    isSpelled (name.toList ++ '_' :: rest) = true ↔ ¬ startsWithDigit name = true := by
  have hall : ∀ c ∈ name.toList ++ '_' :: rest, isPart c = true :=
    List.forall_mem_append.mpr ⟨hparts, List.forall_mem_cons.mpr ⟨by decide, hrest⟩⟩
  rw [isSpelled_iff, and_iff_right hall, startsWithDigit]
  cases hname : name.toList with
  | nil => exact iff_of_true rfl (by simp)
  | cons c others =>
      rw [hname] at hparts
      exact isStart_iff_of_isPart (hparts c List.mem_cons_self)

namespace Member

variable {member : Member} {numbering : Numbering}

theorem Sound.isPart_or_spells (h : member.Sound numbering) :
    (∀ c ∈ member.name.toList, isPart c = true) ∨ ∃ value, Toml.Spells member.name.toList value := by
  cases hvalue : member.value? with
  | none => exact Or.inl (isPart_of_isSpelled (h.name_valid hvalue).1)
  | some value => exact Or.inr ⟨value, h.spelled value hvalue⟩

theorem Sound.isPart_of_startsWithDigit (h : member.Sound numbering) (hdigit : startsWithDigit member.name = true) :
    ∀ c ∈ member.name.toList, isPart c = true := by
  rcases h.isPart_or_spells with hparts | ⟨value, hspells⟩
  · exact hparts
  · unfold startsWithDigit at hdigit
    generalize member.name.toList = text at hspells hdigit ⊢
    cases hspells with
    | unsigned _ hdigits => exact fun c hc => isPart_of_isDigit (hdigits c hc)
    | positive _ _ => cases hdigit
    | negative _ _ => cases hdigit

/-- A sign can only stand in front of digits. -/
theorem Sound.plus_not_mem_of_leadsWithLetter (h : member.Sound numbering)
    (hletter : leadsWithLetter member.name = true) : '+' ∉ member.name.toList := by
  rcases h.isPart_or_spells with hparts | ⟨value, hspells⟩
  · exact fun hplus => absurd (hparts '+' hplus) (by decide)
  · exfalso
    unfold leadsWithLetter at hletter
    generalize member.name.toList = text at hspells hletter
    obtain ⟨c, hfind, halpha⟩ := (Option.any_eq_true _ _).mp hletter
    have hmem := List.mem_of_find?_eq_some hfind
    have hdigit {digits : List Char} (hdigits : ∀ c ∈ digits, c.isDigit = true) (hmem : c ∈ digits) : False := by
      have hstart := isStart_eq_false_of_isDigit (hdigits c hmem)
      simp [isStart, halpha] at hstart
    cases hspells with
    | unsigned _ hdigits => exact hdigit hdigits hmem
    | positive _ hdigits =>
        rcases List.mem_cons.mp hmem with rfl | hmem
        · cases halpha
        · exact hdigit hdigits hmem
    | negative _ hdigits =>
        rcases List.mem_cons.mp hmem with rfl | hmem
        · cases halpha
        · exact hdigit hdigits hmem

end Member

namespace Enumeration

variable {enumeration : Enumeration} {member : Member}

theorem Sound.isPart_macroPrefix (h : enumeration.Sound) : ∀ c ∈ enumeration.macroPrefix.toList, isPart c = true := by
  unfold macroPrefix
  split
  next given hgiven => exact isPart_of_isSpelled (h.prefix_valid given hgiven).1
  next =>
    split
    · exact List.all_eq_true.mp (by decide)
    · exact forall_mem_constantCase (fun _ => isPart_upper) (by decide)
        fun c hc _ => isPart_of_isSpelled h.name_valid.1 c hc

/-- A macro is an identifier when its member has no sign. -/
theorem Sound.isSpelled_macroName_iff (h : enumeration.Sound) (hmember : member ∈ enumeration.members) (value : Int) :
    isSpelled (enumeration.macroName member.name value).toList = true ↔
      '+' ∉ member.name.toList ∧ '-' ∉ member.name.toList := by
  have hname := h.named.members member hmember
  have hsigns : (∀ c ∈ member.name.toList, isPart c = true) ↔
      '+' ∉ member.name.toList ∧ '-' ∉ member.name.toList := by
    rw [forall₂_congr fun c hc => isPart_iff_of_isNominal (hname c hc)]
    simp [forall_and, imp_not_comm]
  rw [← hsigns, macroName]
  split
  · rw [String.toList_append]
    exact isSpelled_append_iff (by decide)
  · rw [String.toList_append, String.toList_append, String.toList_append]
    exact isSpelled_append_iff (isSpelled_append (isSpelled_append (by decide) h.isPart_macroPrefix)
      (List.all_eq_true.mp (by decide)))

/-- A name in pascal case is an identifier when what leads it is a letter. -/
theorem Sound.isSpelled_pascalName_iff (h : enumeration.Sound) (hmember : member ∈ enumeration.members) :
    isSpelled (enumeration.pascalName member.name).toList = true ↔
      leadsWithLetter (if startsWithDigit member.name then enumeration.macroPrefix else member.name) = true := by
  have hsound := h.members member hmember
  rw [pascalName]
  split
  next hdigit =>
    rw [String.toList_append]
    refine isSpelled_pascalCase_append_iff h.named.macroPrefix ?_ (hsound.isPart_of_startsWithDigit hdigit) hdigit
    exact fun hplus => absurd (h.isPart_macroPrefix '+' hplus) (by decide)
  next =>
    rw [isSpelled_pascalCase_iff (h.named.members member hmember)]
    exact and_iff_right_of_imp hsound.plus_not_mem_of_leadsWithLetter

/-- A name in constant case is an identifier when its prefix does not start with a digit, or what leads it is a
letter. -/
theorem Sound.isSpelled_constantName_iff (h : enumeration.Sound) (hmember : member ∈ enumeration.members) :
    isSpelled (enumeration.constantName member.name).toList = true ↔
      if startsWithDigit member.name then ¬ startsWithDigit enumeration.macroPrefix = true
      else leadsWithLetter member.name = true := by
  have hsound := h.members member hmember
  rw [constantName]
  split
  next hdigit =>
    rw [String.toList_append, String.toList_append, List.append_assoc]
    exact isSpelled_append_underscore_iff h.isPart_macroPrefix (hsound.isPart_of_startsWithDigit hdigit)
  next =>
    rw [isSpelled_constantCase_iff (h.named.members member hmember)]
    exact and_iff_right_of_imp hsound.plus_not_mem_of_leadsWithLetter

end Enumeration

namespace FlagSet

variable {flag : Flag}

theorem isSpelled_flagNames (h : flag.Sound) :
    isSpelled (kName flag.name).toList = true ∧
      (isSpelled (pascalCase flag.name).toList = true ↔ leadsWithLetter flag.name = true) ∧
      (isSpelled (constantCase flag.name).toList = true ↔ leadsWithLetter flag.name = true) := by
  have hparts := isPart_of_isSpelled h.name_valid.1
  have hname := nominal_of_isValid h.name_valid
  have hplus : '+' ∉ flag.name.toList := fun hplus => absurd (hparts '+' hplus) (by decide)
  exact ⟨isSpelled_kName hparts, (isSpelled_pascalCase_iff hname).trans (and_iff_right hplus),
    (isSpelled_constantCase_iff hname).trans (and_iff_right hplus)⟩

end FlagSet

namespace Interface

variable {file source : String} {interface : Interface}

/-- The names of members are identifiers unless a sign stands in a macro, a plus sign in a name of C++, or what
leads the name of a member or, where it starts with a digit, of its prefix is no letter in C# or Python. The names
of flags are identifiers unless what leads them is no letter in C# or Python. -/
theorem member_names_spelled_iff (hload : load file source = .ok interface) :
    (∀ enumeration ∈ interface.enumerations, ∀ entry ∈ enumeration.values,
      (isSpelled (enumeration.macroName entry.1.name entry.2).toList = true ↔
        '+' ∉ entry.1.name.toList ∧ '-' ∉ entry.1.name.toList) ∧
      (isSpelled (kName entry.1.name).toList = true ↔ '+' ∉ entry.1.name.toList) ∧
      (isSpelled (enumeration.pascalName entry.1.name).toList = true ↔
        leadsWithLetter (if startsWithDigit entry.1.name then enumeration.macroPrefix else entry.1.name) = true) ∧
      (isSpelled (enumeration.constantName entry.1.name).toList = true ↔
        if startsWithDigit entry.1.name then ¬ startsWithDigit enumeration.macroPrefix = true
        else leadsWithLetter entry.1.name = true)) ∧
    (∀ set ∈ interface.flagSets, ∀ flag ∈ set.flags,
      isSpelled (set.macroName flag.name).toList = true ∧ isSpelled (kName flag.name).toList = true ∧
      (isSpelled (pascalCase flag.name).toList = true ↔ leadsWithLetter flag.name = true) ∧
      (isSpelled (constantCase flag.name).toList = true ↔ leadsWithLetter flag.name = true)) := by
  have hsound := (load_sound hload).1
  constructor
  · intro enumeration henumeration entry hentry
    have h := hsound.enumerations enumeration henumeration
    have hmember : entry.1 ∈ enumeration.members := by
      have hmem := List.mem_map_of_mem (f := Prod.fst) hentry
      rwa [values_map_fst] at hmem
    exact ⟨h.isSpelled_macroName_iff hmember entry.2, isSpelled_kName_iff (h.named.members entry.1 hmember),
      h.isSpelled_pascalName_iff hmember, h.isSpelled_constantName_iff hmember⟩
  · intro set hset flag hflag
    have h := hsound.flagSets set hset
    have hflagSound := h.flags flag hflag
    exact ⟨h.isSpelled_macroName (isPart_of_isSpelled hflagSound.name_valid.1), FlagSet.isSpelled_flagNames hflagSound⟩

end Interface

namespace Sample

/-- A description with names that have an underscore or a sign in front of a digit, and with some that do not. -/
def digitNames : String :=
"copyright = \"\"

[version]
major = 1
minor = 2
patch = 3

[constants]

[functions]

[enums.level]
High = \"high\"
_1 = \"one\"

[enums.http_status]
200 = \"Found.\"
-1 = \"Lost.\"

[flags.events]
Any = { bit = 0 }
_2 = { bit = 1 }

[type_mappings]
"

def levels : Enumeration := ⟨"level", .sequential, none, [⟨"High", "high", none⟩, ⟨"_1", "one", none⟩]⟩

def statuses : Enumeration :=
  ⟨"http_status", .explicitKeyed, none, [⟨"200", "Found.", some 200⟩, ⟨"-1", "Lost.", some (-1)⟩]⟩

def eventFlags : FlagSet := ⟨"events", none, [⟨"Any", "", .bit (some 0)⟩, ⟨"_2", "", .bit (some 1)⟩]⟩

set_option maxRecDepth 10000 in
theorem exists_digitNames : ∃ interface, Interface.load "core_api.toml" digitNames = .ok interface ∧
    interface.enumerations = [levels, statuses] ∧ interface.flagSets = [eventFlags] :=
  Interface.exists_load_of_described String.toList_ofList (by decide)

end Sample

namespace Interface

/-- A name that starts with a digit gets the prefix, and is an identifier in every target. -/
theorem member_names_spelled_iff_digits : ∃ interface, load "core_api.toml" Sample.digitNames = .ok interface ∧
    Sample.statuses ∈ interface.enumerations ∧
      isSpelled (Sample.statuses.macroName "200" 200).toList = true ∧ isSpelled (kName "200").toList = true ∧
      isSpelled (Sample.statuses.pascalName "200").toList = true ∧
      isSpelled (Sample.statuses.constantName "200").toList = true := by
  obtain ⟨interface, hload, henumerations, -⟩ := Sample.exists_digitNames
  have hmem : Sample.statuses ∈ interface.enumerations := by simp [henumerations]
  obtain ⟨hname, hkName, hpascal, hconstant⟩ :=
    (member_names_spelled_iff hload).1 Sample.statuses hmem (⟨"200", "Found.", some 200⟩, 200) (by decide)
  exact ⟨interface, hload, hmem, hname.mpr (by decide), hkName.mpr (by decide), hpascal.mpr (by decide),
    hconstant.mpr (by decide)⟩

/-- Names with an underscore or a sign in front of a digit are no identifiers: `1`, `YOGI_HTTP_STATUS_-1`. -/
theorem member_names_misspelled : ∃ interface, load "core_api.toml" Sample.digitNames = .ok interface ∧
    interface.enumerations = [Sample.levels, Sample.statuses] ∧ interface.flagSets = [Sample.eventFlags] ∧
      (Sample.levels.pascalName "_1" = "1" ∧ Sample.levels.constantName "_1" = "1" ∧
        Sample.statuses.macroName "-1" (-1) = "YOGI_HTTP_STATUS_-1" ∧ pascalCase "_2" = "2") ∧
      isSpelled (Sample.levels.pascalName "_1").toList = false ∧
      isSpelled (Sample.levels.constantName "_1").toList = false ∧
      isSpelled (Sample.statuses.macroName "-1" (-1)).toList = false ∧
      isSpelled (pascalCase "_2").toList = false := by
  obtain ⟨interface, hload, henumerations, hflagSets⟩ := Sample.exists_digitNames
  exact ⟨interface, hload, henumerations, hflagSets, by decide, by decide, by decide, by decide, by decide⟩

end Interface

end Bindery
