import Bindery.Text.Search
import Mathlib.Data.List.Basic

/-!
# What a search finds

A cut divides a text at the first occurrence of the pattern: the pattern stands at the cut, and no
occurrence starts before it. Where a character that is not in the pattern separates two texts, no
occurrence reaches from one into the other.
-/

namespace Bindery.Text

variable {pattern text before after : List Char}

/-- No occurrence of `pattern` starts in a text when `after` follows that text. -/
def NoneStarts (pattern : List Char) : List Char → List Char → Prop
  | [], _ => True
  | c :: rest, after => ¬ pattern <+: c :: rest ++ after ∧ NoneStarts pattern rest after

/-- Occurrences that start in a text start in its first part or in its second. -/
theorem noneStarts_append {first second : List Char} :
    NoneStarts pattern (first ++ second) after ↔
      NoneStarts pattern first (second ++ after) ∧ NoneStarts pattern second after := by
  induction first with
  | nil => simp [NoneStarts]
  | cons c rest ih => simp [NoneStarts, ih, and_assoc]

theorem not_infix_of_noneStarts {initial : Char} {rest : List Char}
    (h : NoneStarts (initial :: rest) before after) : ¬ initial :: rest <:+: before := by
  rintro ⟨front, back, rfl⟩
  rw [List.append_assoc, noneStarts_append] at h
  exact h.2.1 ⟨back ++ after, by simp⟩

/-- A cut is made at the first occurrence of the pattern. -/
theorem cut?_eq_some_iff :
    cut? pattern text = some (before, after) ↔
      text = before ++ after ∧ pattern <+: after ∧ NoneStarts pattern before after := by
  fun_induction cut? pattern text generalizing before with
  | case1 hempty =>
      obtain rfl := List.isEmpty_iff.mp hempty
      constructor
      · intro h
        cases h
        exact ⟨rfl, List.nil_prefix, trivial⟩
      · rintro ⟨htext, -, -⟩
        obtain ⟨rfl, rfl⟩ := List.append_eq_nil_iff.mp htext.symm
        rfl
  | case2 hsome =>
      constructor
      · intro h
        cases h
      · rintro ⟨htext, hprefix, -⟩
        obtain ⟨rfl, rfl⟩ := List.append_eq_nil_iff.mp htext.symm
        exact absurd (List.isEmpty_iff.mpr (List.prefix_nil.mp hprefix)) hsome
  -- the pattern stands here, or the cut is that of the rest
  | case3 c rest hhead =>
      rw [List.isPrefixOf_iff_prefix] at hhead
      constructor
      · intro h
        cases h
        exact ⟨rfl, hhead, trivial⟩
      · rintro ⟨htext, -, hnone⟩
        cases before with
        | nil => rw [htext, List.nil_append]
        | cons d front => exact absurd (htext ▸ hhead) hnone.1
  | case4 c rest hhead ih =>
      rw [List.isPrefixOf_iff_prefix] at hhead
      simp only [Option.map_eq_some_iff, Prod.mk.injEq]
      constructor
      · rintro ⟨⟨front, back⟩, hcut, rfl, rfl⟩
        obtain ⟨rfl, hback, hnone⟩ := ih.mp hcut
        exact ⟨rfl, hback, hhead, hnone⟩
      · rintro ⟨htext, hback, hnone⟩
        cases before with
        | nil => exact absurd (by rwa [htext, List.nil_append]) hhead
        | cons d front =>
            obtain ⟨rfl, rfl⟩ := List.cons.inj htext
            exact ⟨(front, after), ih.mpr ⟨rfl, hback, hnone.2⟩, rfl, rfl⟩

/-- Where no occurrence starts, a cut is made further on. -/
theorem cut?_append_of_noneStarts {front : List Char} (h : NoneStarts pattern front text) :
    cut? pattern (front ++ text) = (cut? pattern text).map fun parts => (front ++ parts.1, parts.2) := by
  induction front with
  | nil => simp
  | cons c rest ih =>
      have hhead : ¬ pattern.isPrefixOf (c :: (rest ++ text)) :=
        fun hprefix => h.1 (List.isPrefixOf_iff_prefix.mp hprefix)
      rw [List.cons_append, cut?, if_neg hhead, ih h.2, Option.map_map]
      rfl

/-- A cut fails only if the pattern does not occur. -/
theorem cut?_eq_none_iff : cut? pattern text = none ↔ ¬ pattern <:+: text := by
  constructor
  · rintro hnone ⟨before, after, rfl⟩
    induction before with
    | nil =>
        cases pattern with
        | nil => cases after <;> simp [cut?] at hnone
        | cons c rest => simp [cut?] at hnone
    | cons c before ih =>
        simp only [List.cons_append, cut?] at hnone
        split at hnone
        · cases hnone
        · exact ih (Option.map_eq_none_iff.mp hnone)
  · intro hnot
    cases hcut : cut? pattern text with
    | none => rfl
    | some parts =>
        obtain ⟨rfl, ⟨rest, hrest⟩, -⟩ := cut?_eq_some_iff.mp hcut
        exact absurd ⟨parts.1, rest, by rw [List.append_assoc, hrest]⟩ hnot

theorem occurs_iff : occurs pattern text ↔ pattern <:+: text := by
  rw [occurs, Option.isSome_iff_ne_none, ne_eq, cut?_eq_none_iff, Classical.not_not]

/-- What stands before the place where an occurrence ends decides whether there is one. -/
theorem noneStarts_append_right {middle : List Char} (hlength : pattern.length ≤ middle.length) :
    NoneStarts pattern before (middle ++ after) ↔ NoneStarts pattern before middle := by
  induction before with
  | nil => exact Iff.rfl
  | cons c rest ih =>
      have hhead : pattern <+: c :: rest ++ (middle ++ after) ↔ pattern <+: c :: rest ++ middle := by
        rw [← List.append_assoc]
        constructor
        · intro h
          refine List.prefix_of_prefix_length_le h (List.prefix_append _ _) ?_
          simp only [List.length_append, List.length_cons]
          omega
        · exact fun h => h.trans (List.prefix_append _ _)
      simp only [NoneStarts, hhead, ih]

/-- A pattern does not reach beyond a character that it does not hold. -/
theorem prefix_of_prefix_append_cons {c : Char} (hc : c ∉ pattern)
    (h : pattern <+: before ++ c :: after) : pattern <+: before := by
  rcases Nat.lt_or_ge before.length pattern.length with hlt | hle
  -- a longer pattern would hold `c`
  · have hstart : before ++ [c] <+: before ++ c :: after := ⟨after, by simp⟩
    have hwithin : before ++ [c] <+: pattern :=
      List.prefix_of_prefix_length_le hstart h (by simpa [Nat.succ_le_iff] using hlt)
    exact absurd (hwithin.subset (by simp)) hc
  · exact List.prefix_of_prefix_length_le h (List.prefix_append _ _) hle

/-- No occurrence of a pattern reaches beyond the end of a text that closes with a character that is
not in the pattern. -/
theorem noneStarts_of_getLast? {c : Char} (hc : c ∉ pattern)
    (hlast : before = [] ∨ before.getLast? = some c) (hnot : ¬ pattern <:+: before) :
    NoneStarts pattern before after := by
  induction before with
  | nil => trivial
  | cons d rest ih =>
      have hclose : (d :: rest).getLast? = some c := hlast.resolve_left (List.cons_ne_nil _ _)
      refine ⟨fun hprefix => ?_, ih ?_ fun hinfix => hnot (List.infix_cons hinfix)⟩
      · obtain ⟨front, hfront⟩ := List.getLast?_eq_some_iff.mp hclose
        rw [hfront, List.append_assoc] at hprefix
        have hstart : pattern <+: front := prefix_of_prefix_append_cons hc hprefix
        rw [hfront] at hnot
        exact hnot (hstart.trans (List.prefix_append _ _)).isInfix
      · cases rest with
        | nil => exact Or.inl rfl
        | cons e rest => exact Or.inr (by simpa [List.getLast?_cons_cons] using hclose)

/-- A text without the pattern is cut off whole where the pattern follows it, when it closes with a
character that is not in the pattern. -/
theorem cut?_append_of_getLast? {c : Char} (hc : c ∉ pattern) (hlast : before.getLast? = some c)
    (hnot : ¬ pattern <:+: before) (rest : List Char) :
    cut? pattern (before ++ pattern ++ rest) = some (before, pattern ++ rest) := by
  refine cut?_eq_some_iff.mpr ⟨List.append_assoc _ _ _, List.prefix_append _ _, ?_⟩
  exact noneStarts_of_getLast? hc (Or.inr hlast) hnot

/-- A pattern whose first character does not recur in it does not overlap itself. -/
theorem noneStarts_of_not_infix {first : Char} {others : List Char} (hfirst : first ∉ others)
    (h : ¬ first :: others <:+: before) :
    NoneStarts (first :: others) before (first :: after) := by
  induction before with
  | nil => trivial
  | cons c rest ih =>
      refine ⟨fun hprefix => ?_, ih fun hinfix => h (List.infix_cons hinfix)⟩
      obtain ⟨rfl, hothers⟩ := List.cons_prefix_cons.mp hprefix
      have hrest : others <+: rest := prefix_of_prefix_append_cons hfirst hothers
      exact h (List.cons_prefix_cons.mpr ⟨rfl, hrest⟩).isInfix

/-- Such a pattern is found where it follows a text without it. -/
theorem cut?_append_of_not_infix {first : Char} {others : List Char} (hfirst : first ∉ others)
    (h : ¬ first :: others <:+: before) (after : List Char) :
    cut? (first :: others) (before ++ (first :: others ++ after)) = some (before, first :: others ++ after) :=
  cut?_eq_some_iff.mpr ⟨rfl, List.prefix_append _ _, noneStarts_of_not_infix hfirst h⟩

/-- A pattern has a first place in a text that holds it. -/
theorem exists_first (hsome : pattern ≠ []) (h : pattern <:+: text) :
    ∃ before after, text = before ++ (pattern ++ after) ∧ ¬ pattern <:+: before := by
  cases hcut : cut? pattern text with
  | none => exact absurd h (cut?_eq_none_iff.mp hcut)
  | some parts =>
      obtain ⟨before, rest⟩ := parts
      obtain ⟨rfl, ⟨after, rfl⟩, hnone⟩ := cut?_eq_some_iff.mp hcut
      obtain ⟨initial, others, rfl⟩ := List.exists_cons_of_ne_nil hsome
      exact ⟨before, after, rfl, not_infix_of_noneStarts hnone⟩

/-- An occurrence of a pattern stands on one side of a character that is not in it. -/
theorem infix_append_cons_iff {c : Char} (hc : c ∉ pattern) :
    pattern <:+: before ++ c :: after ↔ pattern <:+: before ∨ pattern <:+: after := by
  constructor
  · intro h
    induction before with
    | nil =>
        rcases List.infix_cons_iff.mp h with hprefix | hafter
        · have hnil : pattern <+: [] := prefix_of_prefix_append_cons hc hprefix
          exact Or.inl hnil.isInfix
        · exact Or.inr hafter
    | cons d rest ih =>
        rcases List.infix_cons_iff.mp h with hprefix | hrest
        · have hfront : pattern <+: d :: rest := prefix_of_prefix_append_cons hc hprefix
          exact Or.inl hfront.isInfix
        · exact (ih hrest).imp_left List.infix_cons
  · rintro (h | h)
    · exact h.trans (List.prefix_append _ _).isInfix
    · exact h.trans ((List.suffix_cons _ _).trans (List.suffix_append _ _)).isInfix

/-- Pieces are those of the library's split. -/
theorem pieces_eq_splitOnP (isBreak : Char → Bool) (text : List Char) :
    pieces isBreak text = text.splitOnP isBreak := by
  induction text with
  | nil => rfl
  | cons c rest ih => rw [pieces, ih, List.splitOnP_cons_eq_if_modifyHead]

theorem exists_pieces (isBreak : Char → Bool) (text : List Char) :
    ∃ first rest, pieces isBreak text = first :: rest := by
  rw [pieces_eq_splitOnP]
  exact List.exists_cons_of_ne_nil (List.splitOnP_ne_nil _ _)

theorem pieces_eq_splitOn (c : Char) (text : List Char) :
    pieces (· = c) text = text.splitOn c :=
  pieces_eq_splitOnP _ text

/-- A piece of a text is a part of it. -/
theorem infix_of_mem_pieces {isBreak : Char → Bool} {text piece : List Char}
    (h : piece ∈ pieces isBreak text) : piece <:+: text := by
  -- the first piece is also the start of the text, and so stays a part of a longer one
  have hparts : (∀ first ∈ (pieces isBreak text).head?, first <+: text)
      ∧ ∀ piece ∈ pieces isBreak text, piece <:+: text := by
    clear h
    induction text with
    | nil => simp [pieces]
    | cons c rest ih =>
        obtain ⟨hfirst, hall⟩ := ih
        have hlater : ∀ piece ∈ pieces isBreak rest, piece <:+: c :: rest := fun piece hpiece =>
          (hall piece hpiece).trans (List.suffix_cons c rest).isInfix
        rw [pieces]
        split
        · exact ⟨by simp, List.forall_mem_cons.mpr ⟨List.nil_infix, hlater⟩⟩
        · cases hrest : pieces isBreak rest with
          | nil => simp
          | cons first others =>
              rw [hrest] at hfirst hlater
              have hlead : c :: first <+: c :: rest :=
                List.cons_prefix_cons.mpr ⟨rfl, hfirst first rfl⟩
              rw [List.modifyHead_cons]
              refine ⟨by simpa using hlead, List.forall_mem_cons.mpr ⟨hlead.isInfix, ?_⟩⟩
              exact fun piece hpiece => hlater piece (List.mem_cons_of_mem _ hpiece)
  exact hparts.2 piece h

/-- No piece has a character at which the text is divided. -/
theorem isBreak_eq_false_of_mem_pieces {isBreak : Char → Bool} {text piece : List Char} {c : Char}
    (h : piece ∈ pieces isBreak text) (hc : c ∈ piece) : isBreak c = false := by
  induction text generalizing piece with
  | nil =>
      rw [pieces, List.mem_singleton] at h
      rw [h] at hc
      cases hc
  | cons d rest ih =>
      rw [pieces] at h
      split at h
      · rcases List.mem_cons.mp h with rfl | hrest
        · cases hc
        · exact ih hrest hc
      next hd =>
        cases hrest : pieces isBreak rest with
        | nil => simp [hrest] at h
        | cons first others =>
            rw [hrest, List.modifyHead_cons, List.mem_cons] at h
            rw [hrest] at ih
            rcases h with rfl | hother
            · rcases List.mem_cons.mp hc with rfl | hfirst
              · exact Bool.not_eq_true _ ▸ hd
              · exact ih List.mem_cons_self hfirst
            · exact ih (List.mem_cons_of_mem _ hother) hc

/-- A joined text has only characters of its parts and of what separates them. -/
theorem not_mem_join {separator : String} {parts : List String} {c : Char} (hseparator : c ∉ separator.toList)
    (h : ∀ part ∈ parts, c ∉ part.toList) : c ∉ (join separator parts).toList := by
  induction parts with
  | nil => simp [join]
  | cons first rest ih =>
      obtain ⟨hfirst, hrest⟩ := List.forall_mem_cons.mp h
      cases rest with
      | nil => simpa [join] using hfirst
      | cons second others =>
          rw [join, String.intercalate_cons_cons, ← join, String.toList_append, String.toList_append]
          simp [hfirst, hseparator, ih hrest]

section Reading

variable {α β γ : Type} {items : List α} {read : β → Option γ} {value : α → γ}

/-- What is read of the texts that are written for items, if each is read as the value of its item. -/
theorem filterMap_map_of_forall {write : α → β} (h : ∀ item ∈ items, read (write item) = some (value item)) :
    (items.map write).filterMap read = items.map value := by
  have hread : ∀ item ∈ items, (read ∘ write) item = (some ∘ value) item := h
  rw [List.filterMap_map, List.filterMap_congr hread, List.filterMap_eq_map]

theorem filterMap_flatMap_of_forall {write : α → List β}
    (h : ∀ item ∈ items, (write item).filterMap read = [value item]) :
    (items.flatMap write).filterMap read = items.map value := by
  rw [List.filterMap_flatMap, List.flatMap_congr h, List.map_eq_flatMap]

end Reading

end Bindery.Text
