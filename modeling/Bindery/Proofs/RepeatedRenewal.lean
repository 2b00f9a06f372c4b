import Bindery.Proofs.Changes
import Bindery.Proofs.LeadingComments

/-!
# Renewing a header again

The comment made of a copyright text ends where the first closing mark stands in it. If the copyright text
holds none, this is where the renewal has put it, and renewing the header again changes nothing. If it holds
one, the comment ends early: the next renewal finds that mark and keeps what follows it, so the file grows by
the same text each time its header is renewed.
-/

namespace Bindery

open Text

namespace Text

variable {pattern text back : List Char}

/-- A text does not hold a pattern because of characters put behind it that the pattern does not hold. -/
theorem infix_append_iff_of_not_mem (h : ∀ c ∈ back, c ∉ pattern) :
    pattern <:+: text ++ back ↔ pattern <:+: text := by
  cases back with
  | nil => rw [List.append_nil]
  | cons c rest =>
      rw [infix_append_cons_iff (h c List.mem_cons_self), or_iff_left_iff_imp]
      intro hrest
      cases pattern with
      | nil => exact List.nil_infix
      | cons first others =>
          have hfirst : first ∈ rest := hrest.subset List.mem_cons_self
          exact absurd List.mem_cons_self (h first (List.mem_cons_of_mem c hfirst))

/-- Trimming a text takes no pattern without blanks away. -/
theorem infix_trimEnd_iff (h : ∀ c ∈ pattern, isBlank c = false) :
    pattern <:+: trimEnd text ↔ pattern <:+: text := by
  have htext : text = trimEnd text ++ (text.reverse.takeWhile isBlank).reverse := by
    rw [trimEnd, ← List.reverse_append, List.takeWhile_append_dropWhile, List.reverse_reverse]
  have hblank : ∀ c ∈ (text.reverse.takeWhile isBlank).reverse, c ∉ pattern := by
    intro c hc hpattern
    have hc : isBlank c = true := List.mem_takeWhile_imp (List.mem_reverse.mp hc)
    rw [h c hpattern] at hc
    cases hc
  conv_rhs => rw [htext, infix_append_iff_of_not_mem hblank]

theorem infix_trim_iff (h : ∀ c ∈ pattern, isBlank c = false) :
    pattern <:+: trim text ↔ pattern <:+: text := by
  have hreverse : ∀ c ∈ pattern.reverse, isBlank c = false := fun c hc => h c (List.mem_reverse.mp hc)
  have hstart : trimStart text = (trimEnd text.reverse).reverse := by simp [trimStart, trimEnd]
  rw [trim, infix_trimEnd_iff h, hstart, ← List.reverse_infix, List.reverse_reverse, infix_trimEnd_iff hreverse,
    List.reverse_infix]

/-- A pattern without the character that divides a text stands in one of the pieces. -/
theorem exists_infix_of_mem_splitOn {c : Char} (hc : c ∉ pattern) (h : pattern <:+: text) :
    ∃ piece ∈ text.splitOn c, pattern <:+: piece := by
  have hpieces : ∀ pieces : List (List Char), pieces ≠ [] → pattern <:+: [c].intercalate pieces →
      ∃ piece ∈ pieces, pattern <:+: piece := by
    intro pieces hsome hinfix
    induction pieces with
    | nil => exact absurd rfl hsome
    | cons first rest ih =>
        cases rest with
        | nil => exact ⟨first, List.mem_cons_self, by simpa using hinfix⟩
        | cons second others =>
            rw [List.intercalate_cons_cons, List.append_assoc, List.singleton_append,
              infix_append_cons_iff hc] at hinfix
            rcases hinfix with hfirst | hrest
            · exact ⟨first, List.mem_cons_self, hfirst⟩
            · obtain ⟨piece, hpiece, hin⟩ := ih (List.cons_ne_nil _ _) hrest
              exact ⟨piece, List.mem_cons_of_mem _ hpiece, hin⟩
  apply hpieces _ (List.splitOn_ne_nil _ _)
  rwa [List.intercalate_splitOn]

theorem infix_dropCarriageReturn_iff (h : '\r' ∉ pattern) :
    pattern <:+: dropCarriageReturn text ↔ pattern <:+: text := by
  rw [dropCarriageReturn]
  split
  next hlast =>
    obtain ⟨front, rfl⟩ := List.getLast?_eq_some_iff.mp hlast
    rw [List.dropLast_concat, infix_append_iff_of_not_mem (by simpa using h)]
  next => rfl

/-- A pattern without blanks stands in one of the lines of a text that holds it. -/
theorem exists_infix_of_mem_lines (hsome : pattern ≠ []) (hblank : ∀ c ∈ pattern, isBlank c = false)
    (h : pattern <:+: text) : ∃ line ∈ lines text, pattern <:+: line := by
  have hnot {c : Char} (hc : isBlank c = true) : c ∉ pattern := by
    intro hmem
    rw [hblank c hmem] at hc
    cases hc
  obtain ⟨piece, hpiece, hinfix⟩ := exists_infix_of_mem_splitOn (c := '\n') (hnot (by decide)) h
  rw [← pieces_eq_splitOn] at hpiece
  have hline : pattern <:+: dropCarriageReturn piece := (infix_dropCarriageReturn_iff (hnot (by decide))).mpr hinfix
  have hclosed (hfront : piece ∈ (pieces (· = '\n') text).dropLast) :
      dropCarriageReturn piece ∈ (pieces (· = '\n') text).dropLast.map dropCarriageReturn :=
    List.mem_map_of_mem hfront
  -- only an empty last piece is no line, and the pattern does not stand there
  cases hlast : (pieces (· = '\n') text).getLast? with
  | none =>
      rw [List.getLast?_eq_none_iff] at hlast
      rw [hlast] at hpiece
      cases hpiece
  | some last =>
      obtain ⟨front, hfront⟩ := List.getLast?_eq_some_iff.mp hlast
      rw [hfront, List.mem_append, List.mem_singleton] at hpiece
      rw [hfront, List.dropLast_concat] at hclosed
      simp only [lines, hfront, List.getLast?_concat, List.dropLast_concat]
      rcases hpiece with hmem | rfl
      · cases last with
        | nil => exact ⟨_, hclosed hmem, hline⟩
        | cons => exact ⟨_, List.mem_append_left _ (hclosed hmem), hline⟩
      · cases piece with
        | nil => exact absurd (List.infix_nil.mp hinfix) hsome
        | cons => exact ⟨_, List.mem_append_right _ (List.mem_singleton_self _), hinfix⟩

end Text

namespace Header

variable {copyright header content new : String} {path : Path} {pattern tail : List Char}

/-- A pattern without blanks is in the comment if it is in the copyright text. -/
theorem infix_comment_of_infix (hsome : pattern ≠ []) (hblank : ∀ c ∈ pattern, isBlank c = false)
    (h : pattern <:+: copyright.toList) : pattern <:+: (comment copyright).toList := by
  obtain ⟨line, hmem, hline⟩ := exists_infix_of_mem_lines hsome hblank ((infix_trim_iff hblank).mpr h)
  have hmark : pattern <:+: trimEnd (" * ".toList ++ line) := by
    rw [infix_trimEnd_iff hblank]
    exact hline.trans (List.suffix_append _ _).isInfix
  have hlines : commentLine line <:+: (lines (trim copyright.toList)).flatMap commentLine :=
    List.infix_of_mem_flatten (List.mem_map_of_mem hmem)
  have hcomment : (comment copyright).toList =
      opening ++ ['\n'] ++ (lines (trim copyright.toList)).flatMap commentLine ++ [' '] := by simp [comment]
  rw [hcomment]
  have hin : pattern <:+: commentLine line := hmark.trans (List.prefix_append _ _).isInfix
  exact (hin.trans hlines).trans (List.infix_append _ _ _)

theorem isBlank_of_mem_closing : ∀ c ∈ closing, isBlank c = false := by
  rw [closing_eq]
  simp only [List.forall_mem_cons]
  exact ⟨rfl, rfl, by simp⟩

theorem closing_infix_comment_iff : closing <:+: (comment copyright).toList ↔ closing <:+: copyright.toList := by
  constructor
  · intro h
    by_contra hnot
    exact not_infix_comment (by decide) (by decide) (by decide) (by decide) hnot h
  · exact infix_comment_of_infix (by decide) isBlank_of_mem_closing

/-- What stands in a header from its first closing mark on; nothing if it holds none. -/
def overhang (header : String) : List Char := ((cut? closing header.toList).map Prod.snd).getD []

theorem overhang_eq_nil_iff : overhang header = [] ↔ ¬ closing <:+: header.toList := by
  rw [overhang, ← cut?_eq_none_iff]
  cases hcut : cut? closing header.toList with
  | none => simp
  | some parts =>
      obtain ⟨-, ⟨after, hafter⟩, -⟩ := cut?_eq_some_iff.mp hcut
      simp [← hafter, closing_eq]

theorem prefix_overhang_append (h : closing <+: tail) : closing <+: overhang header ++ tail := by
  rw [overhang]
  cases hcut : cut? closing header.toList with
  | none => exact h
  | some parts =>
      obtain ⟨-, hclosing, -⟩ := cut?_eq_some_iff.mp hcut
      exact hclosing.trans (List.prefix_append _ _)

/-- What a cut leaves of the comment and a text that starts with a closing mark. -/
theorem map_snd_cut?_comment_append (h : closing <+: tail) :
    (cut? closing ((comment copyright).toList ++ tail)).map Prod.snd =
      some (overhang (comment copyright) ++ tail) := by
  rw [overhang]
  cases hheader : cut? closing (comment copyright).toList with
  | none =>
      -- the comment ends with a blank, so no closing mark starts in it
      obtain ⟨after, rfl⟩ := h
      obtain ⟨front, hfront⟩ := exists_comment_eq copyright
      have hlast : (comment copyright).toList.getLast? = some ' ' := by rw [hfront, List.getLast?_concat]
      have hnot : ¬ closing <:+: (comment copyright).toList := cut?_eq_none_iff.mp hheader
      rw [← List.append_assoc, cut?_append_of_getLast? space_not_mem_closing hlast hnot after]
      rfl
  | some parts =>
      obtain ⟨hparts, hclosing, hnone⟩ := cut?_eq_some_iff.mp hheader
      have hcut : cut? closing ((comment copyright).toList ++ tail) = some (parts.1, parts.2 ++ tail) := by
        rw [hparts, List.append_assoc]
        refine cut?_eq_some_iff.mpr ⟨rfl, hclosing.trans (List.prefix_append _ _), ?_⟩
        exact (noneStarts_append_right hclosing.length_le).mpr hnone
      rw [hcut]
      rfl

/-- Renewing the header of a text that has it keeps what stands behind the first closing mark of the header. -/
theorem renew?_comment_append (h : closing <+: tail) :
    renew? (comment copyright) (comment copyright ++ String.ofList tail) =
      some (comment copyright ++ String.ofList (overhang (comment copyright) ++ tail)) := by
  have hopening : opening.isPrefixOf (comment copyright ++ String.ofList tail).toList := by
    obtain ⟨front, hfront⟩ := exists_comment_eq copyright
    rw [List.isPrefixOf_iff_prefix, String.toList_append, hfront, List.append_assoc, List.append_assoc]
    exact List.prefix_append _ _
  obtain ⟨parts, hparts, hsnd⟩ := Option.map_eq_some_iff.mp (map_snd_cut?_comment_append h)
  rw [renew?, if_pos hopening, String.toList_append, String.toList_ofList, hparts, Option.map_some, hsnd]

/-- Each renewal puts what overhangs the header in front of what was left so far. -/
theorem textAt_replicate_renewal (h : closing <+: tail) (count : Nat) :
    Revision.textAt path.location (List.replicate count (renewal (comment copyright) path))
        (comment copyright ++ String.ofList tail) =
      .ok (comment copyright ++
        String.ofList ((List.replicate count (overhang (comment copyright))).flatten ++ tail)) := by
  induction count generalizing tail with
  | zero => rfl
  | succ count ih =>
      have hchange : (renewal (comment copyright) path).change (comment copyright ++ String.ofList tail) =
          .ok (comment copyright ++ String.ofList (overhang (comment copyright) ++ tail)) :=
        renewal_change_eq_ok_iff.mpr (renew?_comment_append h)
      have hhere : (renewal (comment copyright) path).location = path.location := rfl
      rw [List.replicate_succ, Revision.textAt_cons, Revision.changeAt, if_pos hhere, hchange]
      refine (ih (prefix_overhang_append h)).trans ?_
      rw [List.replicate_succ', List.flatten_append, List.flatten_singleton, List.append_assoc]

/-- A header that was renewed is left as it is by renewing it again exactly if the copyright text holds no closing
mark. In any case the header can be renewed again, and each time the file grows by what overhangs the comment. -/
theorem renewed_again_iff (h : (renewal (comment copyright) path).change content = .ok new) :
    ((renewal (comment copyright) path).change new = .ok new ↔ ¬ closing <:+: copyright.toList) ∧
    (overhang (comment copyright) = [] ↔ ¬ closing <:+: copyright.toList) ∧
    ∃ rest, new = comment copyright ++ "*/" ++ rest ∧
      ∀ count, Revision.textAt path.location (List.replicate count (renewal (comment copyright) path)) new =
        .ok (comment copyright ++ String.ofList (List.replicate count (overhang (comment copyright))).flatten ++
          "*/" ++ rest) := by
  obtain ⟨after, hafter⟩ := prefix_of_renew?_eq_some (renewal_change_eq_ok_iff.mp h)
  have hnew : new = comment copyright ++ String.ofList (closing ++ after) := by
    rw [← String.toList_inj, ← hafter]
    simp
  have hoverhang : overhang (comment copyright) = [] ↔ ¬ closing <:+: copyright.toList := by
    rw [overhang_eq_nil_iff, closing_infix_comment_iff]
  refine ⟨?_, hoverhang, String.ofList after, ?_, fun count => ?_⟩
  · rw [← hoverhang, renewal_change_eq_ok_iff, hnew, renew?_comment_append (List.prefix_append _ _)]
    simp [← String.toList_inj]
  · rw [hnew, ← String.toList_inj]
    simp [closing]
  · rw [hnew, textAt_replicate_renewal (List.prefix_append _ _), Except.ok.injEq, ← String.toList_inj]
    simp [closing]

/-- The comment is found where it was put, however often the header is renewed. -/
theorem renewed_again_iff_stars :
    (renewal (comment "New\n* text") ⟨"src/a.h"⟩).change "/* old */ int x;" =
        .ok (comment "New\n* text" ++ "*/ int x;") ∧
      ¬ closing <:+: "New\n* text".toList ∧
      (renewal (comment "New\n* text") ⟨"src/a.h"⟩).change (comment "New\n* text" ++ "*/ int x;") =
        .ok (comment "New\n* text" ++ "*/ int x;") := by
  have hleads : Leads " old " " int x;" "/* old */ int x;" := ⟨by decide, cut?_eq_none_iff.mp (by decide)⟩
  have hchange : (renewal (comment "New\n* text") ⟨"src/a.h"⟩).change "/* old */ int x;" =
      .ok (comment "New\n* text" ++ "*/ int x;") := by
    rw [renewal_change_eq_ok_iff, hleads.renew?_eq_some (by decide), Option.some.injEq, ← String.toList_inj]
    simp
  have hnot : ¬ closing <:+: "New\n* text".toList := cut?_eq_none_iff.mp (by decide)
  exact ⟨hchange, hnot, (renewed_again_iff hchange).1.mpr hnot⟩

/-- A copyright text that holds the closing mark ends the comment made of it, and what follows the mark is repeated
when the header is renewed again. -/
theorem renewed_again_grows :
    (renewal (comment "a */ b") ⟨"src/a.h"⟩).change "/* old */\nint a;\n" =
        .ok "/*\n * a */ b\n */\nint a;\n" ∧
      (renewal (comment "a */ b") ⟨"src/a.h"⟩).change "/*\n * a */ b\n */\nint a;\n" =
        .ok "/*\n * a */ b\n */ b\n */\nint a;\n" ∧
      (renewal (comment "a */ b") ⟨"src/a.h"⟩).change "/*\n * a */ b\n */\nint a;\n" ≠
        .ok "/*\n * a */ b\n */\nint a;\n" := by
  have hcomment : comment "a */ b" = "/*\n * a */ b\n " := by decide +kernel
  simp only [ne_eq, renewal_change_eq_ok_iff, hcomment]
  exact ⟨by decide +kernel, by decide +kernel, by decide +kernel⟩

end Header

end Bindery
