import Bindery.Proofs.Layout

/-!
# Texts without markers

Both markers start and end with a colon and hold few other characters. So a text without a marker stays
one when texts without a colon are put in front of it or behind it, and a text that has a character of no
marker, and no colon, is a fence: it keeps the texts on its two sides apart. Texts that are joined with a
fence between them, and texts in which characters are replaced by fences, have no other markers.
-/

namespace Bindery

open Text

namespace Text

variable {c : Char} {pattern first second : List Char}

/-- A pattern does not start in a text that lacks its first character. -/
theorem infix_append_of_head_not_mem (h : c ∉ first) :
    c :: pattern <:+: first ++ second ↔ c :: pattern <:+: second := by
  refine ⟨fun hpart => ?_, fun hpart => hpart.trans (List.suffix_append _ _).isInfix⟩
  induction first with
  | nil => exact hpart
  | cons d rest ih =>
      rw [List.mem_cons, not_or] at h
      rcases List.infix_cons_iff.mp hpart with hprefix | hrest
      · exact absurd (List.cons_prefix_cons.mp hprefix).1 h.1
      · exact ih h.2 hrest

/-- A pattern does not end in a text that lacks its last character. -/
theorem infix_append_of_last_not_mem (h : c ∉ second) :
    pattern ++ [c] <:+: first ++ second ↔ pattern ++ [c] <:+: first := by
  rw [← List.reverse_infix, ← @List.reverse_infix _ _ first, List.reverse_append,
    List.reverse_append, List.reverse_singleton, List.singleton_append]
  exact infix_append_of_head_not_mem (by simpa using h)

end Text

namespace Block

variable {c : Char} {text first second : List Char}

theorem Unmarked.of_infix (h : Unmarked second) (hpart : first <:+: second) : Unmarked first :=
  ⟨fun hbegin => h.1 (hbegin.trans hpart), fun hend => h.2 (hend.trans hpart)⟩

theorem unmarked_append_left (h : ':' ∉ first) : Unmarked (first ++ second) ↔ Unmarked second := by
  have hbegin : beginMarker = ':' :: "CODEGEN_BEGIN:".toList := by decide
  have hend : endMarker = ':' :: "CODEGEN_END:".toList := by decide
  rw [Unmarked, hbegin, hend, infix_append_of_head_not_mem h, infix_append_of_head_not_mem h,
    ← hbegin, ← hend, Unmarked]

theorem unmarked_append_right (h : ':' ∉ second) : Unmarked (first ++ second) ↔ Unmarked first := by
  have hbegin : beginMarker = ":CODEGEN_BEGIN".toList ++ [':'] := by decide
  have hend : endMarker = ":CODEGEN_END".toList ++ [':'] := by decide
  rw [Unmarked, hbegin, hend, infix_append_of_last_not_mem h, infix_append_of_last_not_mem h,
    ← hbegin, ← hend, Unmarked]

/-- A text without a colon has no marker. -/
theorem unmarked_of_not_mem (h : ':' ∉ text) : Unmarked text := by
  rw [← List.append_nil text, unmarked_append_left h]
  decide

/-- A character of no marker keeps the texts on its two sides apart. -/
theorem unmarked_append_cons (h : c ∉ beginMarker ++ endMarker) :
    Unmarked (first ++ c :: second) ↔ Unmarked first ∧ Unmarked second := by
  rw [List.mem_append, not_or] at h
  rw [Unmarked, infix_append_cons_iff h.1, infix_append_cons_iff h.2, Unmarked, Unmarked,
    not_or, not_or, and_and_and_comm]

/-- The characters of the markers. -/
def markerChars : List Char := [':', 'C', 'O', 'D', 'E', 'G', 'N', '_', 'B', 'I']

theorem subset_markerChars : beginMarker ++ endMarker ⊆ markerChars := by decide

/-- A text that keeps the texts on its two sides apart. -/
def Fence (text : List Char) : Prop := ':' ∉ text ∧ ∃ c ∈ text, c ∉ markerChars

-- the instance is that of lists, as another one goes through all characters
instance (text : List Char) : Decidable (Fence text) :=
  @instDecidableAnd _ _ _ (List.decidableBEx _ text)

theorem unmarked_append_fence {fence : List Char} (h : Fence fence) :
    Unmarked (first ++ (fence ++ second)) ↔ Unmarked first ∧ Unmarked second := by
  obtain ⟨hcolon, c, hmem, hc⟩ := h
  obtain ⟨front, back, rfl⟩ := List.append_of_mem hmem
  simp only [List.mem_append, List.mem_cons, not_or] at hcolon
  rw [List.append_assoc, List.cons_append, ← List.append_assoc,
    unmarked_append_cons fun hmarker => hc (subset_markerChars hmarker),
    unmarked_append_right hcolon.1, unmarked_append_left hcolon.2.2]

/-- Whether behind each colon stands a character other than the second one of the markers. Then no marker
starts in the text, be it one that goes on behind it. -/
def isClosed : List Char → Bool
  | [] => true
  | [c] => c ≠ ':'
  | c :: d :: rest => (c ≠ ':' || d ≠ 'C') && isClosed (d :: rest)

theorem infix_append_closed {pattern : List Char} (h : isClosed first) :
    ':' :: 'C' :: pattern <:+: first ++ second ↔ ':' :: 'C' :: pattern <:+: second := by
  refine ⟨fun hpart => ?_, fun hpart => hpart.trans (List.suffix_append _ _).isInfix⟩
  induction first with
  | nil => exact hpart
  | cons c rest ih =>
      rcases List.infix_cons_iff.mp hpart with hlead | hrest
      · obtain ⟨rfl, hnext⟩ := List.cons_prefix_cons.mp hlead
        cases rest with
        | nil => simp [isClosed] at h
        | cons d others =>
            obtain ⟨rfl, -⟩ := List.cons_prefix_cons.mp hnext
            simp [isClosed] at h
      · refine ih ?_ hrest
        cases rest with
        | nil => rfl
        | cons d others => exact ((Bool.and_eq_true _ _).mp h).2

theorem unmarked_append_closed (h : isClosed first) : Unmarked (first ++ second) ↔ Unmarked second := by
  have hbegin : beginMarker = ':' :: 'C' :: "ODEGEN_BEGIN:".toList := by decide
  have hend : endMarker = ':' :: 'C' :: "ODEGEN_END:".toList := by decide
  rw [Unmarked, hbegin, hend, infix_append_closed h, infix_append_closed h, ← hbegin, ← hend, Unmarked]

/-- Characters that are replaced by fences do not make a marker. -/
theorem unmarked_flatMap {f : Char → List Char} (hf : ∀ c, f c = [c] ∨ Fence (f c)) (h : Unmarked text) :
    Unmarked (text.flatMap f) := by
  -- what stands in front has been replaced already
  have hfront (front : List Char) (hall : Unmarked (front ++ text)) : Unmarked (front ++ text.flatMap f) := by
    clear h
    induction text generalizing front with
    | nil => exact hall
    | cons c rest ih =>
        rw [List.flatMap_cons]
        rcases hf c with hkept | hfence
        · rw [hkept, ← List.append_assoc]
          refine ih _ ?_
          rwa [List.append_assoc, List.singleton_append]
        · have hrest : Unmarked ([] ++ rest) :=
            hall.of_infix ⟨front ++ [c], [], by simp⟩
          exact (unmarked_append_fence hfence).mpr
            ⟨hall.of_infix (List.prefix_append _ _).isInfix, ih [] hrest⟩
  exact hfront [] h

/-- Occurrences that are replaced by a fence do not make a marker. -/
theorem unmarked_replace {pattern fence : List Char} (hfence : Fence fence) (h : Unmarked text) :
    Unmarked (replace pattern fence text) := by
  have hboth : (∀ front, Unmarked (front ++ text) → Unmarked (front ++ replaceFrom pattern fence 0 text))
      ∧ ∀ skipped, Unmarked (replaceFrom pattern fence skipped text) := by
    induction text with
    | nil =>
        refine ⟨fun front hall => hall, fun skipped => ?_⟩
        cases skipped <;> exact unmarked_of_not_mem List.not_mem_nil
    | cons c rest ih =>
        have hrest : Unmarked rest := h.of_infix (List.suffix_cons c rest).isInfix
        obtain ⟨hfronts, hskips⟩ := ih hrest
        have hstep : ∀ front, Unmarked (front ++ c :: rest) →
            Unmarked (front ++ replaceFrom pattern fence 0 (c :: rest)) := by
          intro front hall
          rw [replaceFrom]
          split
          · exact (unmarked_append_fence hfence).mpr
              ⟨hall.of_infix (List.prefix_append _ _).isInfix, hskips _⟩
          · rw [List.append_cons]
            refine hfronts _ ?_
            rwa [← List.append_cons]
        refine ⟨hstep, fun skipped => ?_⟩
        cases skipped with
        | zero => exact hstep [] h
        | succ skipped => exact hskips skipped
  exact hboth.1 [] h

theorem unmarked_join {separator : String} (hfence : Fence separator.toList) {parts : List String}
    (h : ∀ part ∈ parts, Unmarked part.toList) : Unmarked (join separator parts).toList := by
  rw [join, String.toList_intercalate]
  induction parts with
  | nil => exact unmarked_of_not_mem List.not_mem_nil
  | cons part rest ih =>
      obtain ⟨hpart, hrest⟩ := List.forall_mem_cons.mp h
      cases rest with
      | nil => simpa using hpart
      | cons second others =>
          rw [List.map_cons, List.map_cons, List.intercalate_cons_cons, List.append_assoc,
            unmarked_append_fence hfence]
          exact ⟨hpart, ih hrest⟩

end Block

end Bindery
