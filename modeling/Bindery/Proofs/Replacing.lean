import Bindery.Proofs.Markers

/-!
# Replacing text

Where a text has a character that is not in the pattern, its parts on both sides are replaced each by
itself. No occurrence is left behind when what replaces it cannot be part of one.
-/

namespace Bindery.Text

variable {c : Char} {pattern replacement text first second front back separator : List Char}

theorem length_pred_le_of_prefix (h : pattern <+: c :: text) : pattern.length - 1 ≤ text.length := by
  have hle := h.length_le
  rw [List.length_cons] at hle
  omega

/-- A text without the pattern stays as it is. -/
theorem replace_of_not_infix (h : ¬ pattern <:+: text) : replace pattern replacement text = text := by
  rw [replace]
  induction text with
  | nil => rfl
  | cons c rest ih =>
      have hstart : ¬ pattern.isPrefixOf (c :: rest) = true := fun hprefix =>
        h (List.isPrefixOf_iff_prefix.mp hprefix).isInfix
      rw [replaceFrom, if_neg hstart, ih fun hrest => h (hrest.trans (List.suffix_cons c rest).isInfix)]

theorem mem_replace (h : c ∈ replace pattern replacement text) : c ∈ replacement ∨ c ∈ text := by
  have hall : ∀ skipped, c ∈ replaceFrom pattern replacement skipped text →
      c ∈ replacement ∨ c ∈ text := by
    clear h
    induction text with
    | nil => simp [replaceFrom]
    | cons d rest ih =>
        intro skipped hmem
        cases skipped with
        | succ skipped => exact (ih skipped hmem).imp_right (List.mem_cons_of_mem d)
        | zero =>
            rw [replaceFrom] at hmem
            split at hmem
            · rcases List.mem_append.mp hmem with hfirst | hrest
              · exact .inl hfirst
              · exact (ih _ hrest).imp_right (List.mem_cons_of_mem d)
            · rcases List.mem_cons.mp hmem with rfl | hrest
              · exact .inr List.mem_cons_self
              · exact (ih _ hrest).imp_right (List.mem_cons_of_mem d)
  exact hall 0 h

/-- An occurrence does not reach beyond a character that is not in the pattern. -/
theorem replaceFrom_append_cons (hc : c ∉ pattern) (hne : pattern ≠ []) {skipped : Nat}
    (hskipped : skipped ≤ front.length) : replaceFrom pattern replacement skipped (front ++ c :: back)
      = replaceFrom pattern replacement skipped front ++ c :: replace pattern replacement back := by
  induction front generalizing skipped with
  | nil =>
      have hstart : ¬ pattern.isPrefixOf (c :: back) = true := by
        rw [List.isPrefixOf_iff_prefix]
        intro hprefix
        have hstart : pattern <+: [] ++ c :: back := hprefix
        exact hne (List.prefix_nil.mp (prefix_of_prefix_append_cons hc hstart))
      obtain rfl : skipped = 0 := by simpa using hskipped
      simp only [List.nil_append, replaceFrom, if_neg hstart]
      rfl
  | cons d rest ih =>
      cases skipped with
      | succ skipped => exact ih (by simpa using hskipped)
      | zero =>
          have hiff : pattern.isPrefixOf (d :: (rest ++ c :: back)) = true
              ↔ pattern.isPrefixOf (d :: rest) = true := by
            rw [List.isPrefixOf_iff_prefix, List.isPrefixOf_iff_prefix, ← List.cons_append]
            exact ⟨prefix_of_prefix_append_cons hc, fun h => h.trans (List.prefix_append _ _)⟩
          rw [List.cons_append, replaceFrom, replaceFrom]
          by_cases hstarts : pattern.isPrefixOf (d :: rest) = true
          · have hlength := length_pred_le_of_prefix (List.isPrefixOf_iff_prefix.mp hstarts)
            rw [if_pos (hiff.mpr hstarts), if_pos hstarts, ih hlength, List.append_assoc]
          · rw [if_neg (hstarts ∘ hiff.mp), if_neg hstarts, ih (Nat.zero_le _), List.cons_append]

theorem replace_append_cons (hc : c ∉ pattern) (hne : pattern ≠ []) :
    replace pattern replacement (front ++ c :: back)
      = replace pattern replacement front ++ c :: replace pattern replacement back :=
  replaceFrom_append_cons hc hne (Nat.zero_le _)

/-- Texts with a separator between them are replaced each by itself. -/
theorem replace_append_separator (hne : pattern ≠ []) (hsome : separator ≠ [])
    (h : ∀ c ∈ separator, c ∉ pattern) : replace pattern replacement (first ++ (separator ++ second))
      = replace pattern replacement first ++ (separator ++ replace pattern replacement second) := by
  induction separator generalizing first with
  | nil => exact absurd rfl hsome
  | cons c rest ih =>
      obtain ⟨hc, hrest⟩ := List.forall_mem_cons.mp h
      rw [List.cons_append, replace_append_cons hc hne]
      cases rest with
      | nil => rfl
      | cons d others => rw [← List.nil_append (d :: others ++ second), ih (by simp) hrest]; rfl

/-- The pattern is gone when what replaces it starts with a character that is not in the pattern, and
goes on without the one that the pattern starts with. -/
theorem not_infix_replace {initial : Char} {rest : List Char} (hc : c ∉ initial :: rest)
    (hinitial : initial ∉ replacement) :
    ¬ initial :: rest <:+: replace (initial :: rest) (c :: replacement) text := by
  -- what stands in front has been passed over already
  have hboth : (∀ front, NoneStarts (initial :: rest) front text →
        ¬ initial :: rest <:+: front ++ replaceFrom (initial :: rest) (c :: replacement) 0 text)
      ∧ ∀ skipped,
        ¬ initial :: rest <:+: replaceFrom (initial :: rest) (c :: replacement) skipped text := by
    induction text with
    | nil =>
        refine ⟨fun front hfront => ?_, fun skipped => ?_⟩
        · rw [replaceFrom, List.append_nil]
          exact not_infix_of_noneStarts hfront
        · cases skipped <;> simp [replaceFrom]
    | cons d others ih =>
        obtain ⟨hfronts, hskips⟩ := ih
        have hstep : ∀ front, NoneStarts (initial :: rest) front (d :: others) →
            ¬ initial :: rest <:+:
              front ++ replaceFrom (initial :: rest) (c :: replacement) 0 (d :: others) := by
          intro front hfront
          rw [replaceFrom]
          split
          · rw [List.cons_append, infix_append_cons_iff hc, infix_append_of_head_not_mem hinitial,
              not_or]
            exact ⟨not_infix_of_noneStarts hfront, hskips _⟩
          next hstart =>
            rw [List.append_cons]
            refine hfronts _ (noneStarts_append.mpr ⟨hfront, fun hprefix => ?_, trivial⟩)
            exact hstart (List.isPrefixOf_iff_prefix.mpr hprefix)
        refine ⟨hstep, fun skipped => ?_⟩
        cases skipped with
        | zero => exact hstep [] trivial
        | succ skipped => exact hskips skipped
  exact hboth.1 [] trivial

end Bindery.Text
