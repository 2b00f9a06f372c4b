import Bindery.Proofs.Header

/-!
# Leading comments

A comment ends at the first closing mark behind the mark that opens it. When a header is renewed, the closing
mark is searched from the start of the text on, so the star of the opening mark can be taken for that of the
closing one. Thus the old comment is replaced as a whole exactly if its body does not start with a slash; of a
text that starts with `/*/`, only the slash in front is replaced, whether a comment ends in it or not.
-/

namespace Bindery.Header

open Text

variable {header content body rest : String} {tail : List Char} {path : Path}

/-- A text starts with a comment: the opening mark, a body in which no closing mark stands, and the closing
mark. The rest is what follows. -/
structure Leads (body rest content : String) : Prop where
  content_eq : content = "/*" ++ body ++ "*/" ++ rest
  not_closed : ¬ "*/".toList <:+: body.toList

theorem opening_eq : opening = ['/', '*'] := by decide

theorem closing_eq : closing = ['*', '/'] := by decide

/-- The closing mark is found behind the opening one, or overlaps it. -/
theorem cut?_closing_opening_append (tail : List Char) :
    cut? closing (opening ++ tail) =
      if "/".toList <+: tail then some (['/'], '*' :: tail)
      else (cut? closing tail).map fun parts => (opening ++ parts.1, parts.2) := by
  rw [opening_eq, closing_eq]
  by_cases hslash : ['/'] <+: tail <;> simp [cut?, hslash, Function.comp_def]

theorem renew?_eq_none_of_not_prefix (h : ¬ opening <+: content.toList) : renew? header content = none := by
  rw [renew?, if_neg]
  rwa [List.isPrefixOf_iff_prefix]

/-- What stands behind the opening mark decides how a header is renewed. -/
theorem renew?_of_toList_eq (h : content.toList = opening ++ tail) :
    renew? header content =
      if "/".toList <+: tail then some (header ++ String.ofList ('*' :: tail))
      else (cut? closing tail).map fun parts => header ++ String.ofList parts.2 := by
  have hopening : opening.isPrefixOf content.toList := by
    rw [List.isPrefixOf_iff_prefix, h]
    exact List.prefix_append _ _
  rw [renew?, if_pos hopening, h, cut?_closing_opening_append]
  split
  · rfl
  · rw [Option.map_map]
    rfl

theorem renewal_change_eq_error_iff :
    (renewal header path).change content = .error (.noHeader path) ↔ renew? header content = none := by
  cases hrenew : renew? header content <;> simp [renewal, hrenew]

namespace Leads

theorem toList_eq (h : Leads body rest content) :
    content.toList = opening ++ (body.toList ++ (closing ++ rest.toList)) := by
  rw [h.content_eq]
  simp [opening, closing]

/-- A comment whose body does not start with a slash is replaced as a whole. -/
theorem renew?_eq_some (h : Leads body rest content) (hslash : ¬ "/".toList <+: body.toList) :
    renew? header content = some (header ++ "*/" ++ rest) := by
  have hcut : cut? closing (body.toList ++ (closing ++ rest.toList)) =
      some (body.toList, closing ++ rest.toList) := by
    have hnot := h.not_closed
    rw [closing_eq]
    exact cut?_append_of_not_infix (by decide) hnot rest.toList
  have htail : ¬ "/".toList <+: body.toList ++ (closing ++ rest.toList) := by
    rw [closing_eq]
    cases hbody : body.toList with
    | nil => simp
    | cons c others =>
        rw [hbody] at hslash
        simpa using hslash
  rw [renew?_of_toList_eq h.toList_eq, if_neg htail, hcut, Option.map_some, Option.some.injEq,
    ← String.toList_inj]
  simp [closing]

/-- If the body starts with a slash, it is left over behind the new comment. -/
theorem renew?_ne_some (h : Leads body rest content) (hslash : "/".toList <+: body.toList) :
    renew? header content ≠ some (header ++ "*/" ++ rest) := by
  rw [renew?_of_toList_eq h.toList_eq, if_pos (hslash.trans (List.prefix_append _ _))]
  intro hsame
  have hlength := congrArg String.length (Option.some.inj hsame)
  simp only [String.length_append, String.length_ofList, List.length_cons, List.length_append,
    String.length_toList, closing] at hlength
  omega

/-- The old comment is replaced as a whole exactly if its body does not start with a slash. -/
theorem renew?_eq_some_iff (h : Leads body rest content) :
    renew? header content = some (header ++ "*/" ++ rest) ↔ ¬ "/".toList <+: body.toList :=
  ⟨fun hsome hslash => h.renew?_ne_some hslash hsome, h.renew?_eq_some⟩

end Leads

theorem exists_leads_of_cut? {parts : List Char × List Char} (h : content.toList = opening ++ tail)
    (hcut : cut? closing tail = some parts) : ∃ body rest, Leads body rest content := by
  have hinfix : closing <:+: tail := by
    by_contra hnot
    rw [cut?_eq_none_iff.mpr hnot] at hcut
    cases hcut
  obtain ⟨before, after, rfl, hnot⟩ := exists_first (by decide) hinfix
  refine ⟨String.ofList before, String.ofList after, ?_, ?_⟩
  · rw [← String.toList_inj, h]
    simp [opening, closing]
  · simpa [closing] using hnot

/-- A text in which a slash follows the opening mark is renewed in any case, and keeps all that follows. -/
theorem renew?_slash (header tail : String) : renew? header ("/*/" ++ tail) = some (header ++ "*/" ++ tail) := by
  have htext : ("/*/" ++ tail).toList = opening ++ '/' :: tail.toList := by simp [opening]
  have hslash : "/".toList <+: '/' :: tail.toList := List.cons_prefix_cons.mpr ⟨rfl, List.nil_prefix⟩
  rw [renew?_of_toList_eq htext, if_pos hslash, Option.some.injEq, ← String.toList_inj]
  simp

/-- A text without a leading comment is renewed only if a slash follows the opening mark. -/
theorem renew?_eq_none_iff (h : ∀ body rest, ¬ Leads body rest content) :
    renew? header content = none ↔ ¬ "/*/".toList <+: content.toList := by
  constructor
  · rintro hnone ⟨after, hafter⟩
    have hcontent : content = "/*/" ++ String.ofList after := by
      rw [← String.toList_inj, ← hafter]
      simp
    rw [hcontent, renew?_slash] at hnone
    cases hnone
  · intro hnot
    by_cases hopening : opening <+: content.toList
    · obtain ⟨tail, htail⟩ := hopening
      have hslash : ¬ "/".toList <+: tail := by
        rintro ⟨after, rfl⟩
        exact hnot ⟨after, by rw [← htail]; simp [opening]⟩
      rw [renew?_of_toList_eq htail.symm, if_neg hslash, Option.map_eq_none_iff]
      by_contra hsome
      obtain ⟨parts, hcut⟩ := Option.ne_none_iff_exists'.mp hsome
      obtain ⟨body, rest, hleads⟩ := exists_leads_of_cut? htail.symm hcut
      exact h body rest hleads
    · exact renew?_eq_none_of_not_prefix hopening

/-- When the header of a file is renewed, the comment at its start is replaced as a whole exactly if its body
does not start with a slash. A file without such a comment is refused, unless it starts with `/*/`; then all
that stands behind these characters is kept. -/
theorem header_renewal_outcome (copyright : String) (path : Path) :
    (∀ body rest content, Leads body rest content →
      ((renewal (comment copyright) path).change content = .ok (comment copyright ++ "*/" ++ rest) ↔
        ¬ "/".toList <+: body.toList)) ∧
    (∀ content, (∀ body rest, ¬ Leads body rest content) →
      ((renewal (comment copyright) path).change content = .error (.noHeader path) ↔
        ¬ "/*/".toList <+: content.toList)) ∧
    ∀ tail, (renewal (comment copyright) path).change ("/*/" ++ tail) =
      .ok (comment copyright ++ "*/" ++ tail) := by
  refine ⟨fun body rest content hleads => ?_, fun content hnone => ?_, fun tail => ?_⟩
  · rw [renewal_change_eq_ok_iff]
    exact hleads.renew?_eq_some_iff
  · rw [renewal_change_eq_error_iff]
    exact renew?_eq_none_iff hnone
  · rw [renewal_change_eq_ok_iff]
    exact renew?_slash _ tail

theorem header_renewal_outcome_stars :
    Leads "** / *" "int x;" "/*** / **/int x;" ∧ ¬ "/".toList <+: "** / *".toList ∧
      (renewal (comment "New") ⟨"src/a.h"⟩).change "/*** / **/int x;" =
        .ok (comment "New" ++ "*/" ++ "int x;") ∧
      (∀ body rest, ¬ Leads body rest "/* open") ∧ ¬ "/*/".toList <+: "/* open".toList ∧
      (renewal (comment "New") ⟨"src/a.h"⟩).change "/* open" = .error (.noHeader ⟨"src/a.h"⟩) := by
  obtain ⟨hwhole, hrefused, -⟩ := header_renewal_outcome "New" ⟨"src/a.h"⟩
  have hleads : Leads "** / *" "int x;" "/*** / **/int x;" := ⟨by decide, cut?_eq_none_iff.mp (by decide)⟩
  have hnone : ∀ body rest, ¬ Leads body rest "/* open" := by
    intro body rest h
    have hopen : ¬ closing <:+: "/* open".toList := cut?_eq_none_iff.mp (by decide)
    rw [h.toList_eq] at hopen
    exact hopen ⟨opening ++ body.toList, rest.toList, by simp⟩
  have hslash : ¬ "/".toList <+: "** / *".toList := by decide
  have hoverlap : ¬ "/*/".toList <+: "/* open".toList := by decide
  exact ⟨hleads, hslash, (hwhole _ _ _ hleads).mpr hslash, hnone, hoverlap, (hrefused _ hnone).mpr hoverlap⟩

/-- The closing mark of the new comment ends it where the old one started, so the old body becomes code. -/
theorem header_renewal_leaves_body :
    Leads "/ old " "\nint a;\n" "/*/ old */\nint a;\n" ∧
      (renewal (comment "New") ⟨"src/a.h"⟩).change "/*/ old */\nint a;\n" =
        .ok "/*\n * New\n */ old */\nint a;\n" ∧
      (renewal (comment "New") ⟨"src/a.h"⟩).change "/*/ old */\nint a;\n" ≠
        .ok (comment "New" ++ "*/" ++ "\nint a;\n") := by
  have hcomment : comment "New" = "/*\n * New\n " := by decide +kernel
  have hchange : (renewal (comment "New") ⟨"src/a.h"⟩).change "/*/ old */\nint a;\n" =
      .ok "/*\n * New\n */ old */\nint a;\n" := by
    rw [renewal_change_eq_ok_iff, hcomment]
    exact renew?_slash _ " old */\nint a;\n"
  refine ⟨⟨by decide, cut?_eq_none_iff.mp (by decide)⟩, hchange, ?_⟩
  rw [hchange, hcomment]
  decide

end Bindery.Header
