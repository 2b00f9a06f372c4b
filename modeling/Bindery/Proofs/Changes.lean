import Bindery.Proofs.Revision

/-!
# What revisions report

A revision reports whether the text of its file changed. What it reports follows from what the file holds
and from the earlier revisions of that file. In a dry run nothing is written, so a revision does not see
the texts that the earlier ones would have written.
-/

namespace Bindery

open Checkout

variable {checkout before middle after : Checkout} {location : Location} {mode : Mode}
  {revision : Revision} {earlier first second revisions : List Revision}

namespace Revision

/-- The text of a file after some revisions, if it holds a text and they can be made. -/
def textAfter? (checkout : Checkout) (revisions : List Revision) (location : Location) :
    Option String :=
  match checkout.content? location with
  | some (.text text) => (textAt location revisions text).toOption
  | _ => none

/-- What a revision reports that is made after some others. -/
def changeAfter (checkout : Checkout) (earlier : List Revision) (revision : Revision) : Change :=
  if textAfter? checkout earlier revision.location =
      textAfter? checkout (earlier ++ [revision]) revision.location then .unchanged
  else .written

/-- A revision can be made: its file holds a text that it can change. -/
def Applies (checkout : Checkout) (revision : Revision) : Prop :=
  ∃ text new, checkout.content? revision.location = some (.text text) ∧ revision.change text = .ok new

theorem textAt_singleton (text : String) :
    textAt revision.location [revision] text = revision.change text :=
  textAt_of_mem (List.mem_singleton_self revision) (List.nodup_singleton _) text

theorem textAfter?_of_content? {text : String}
    (htext : checkout.content? location = some (.text text)) (revisions : List Revision) :
    textAfter? checkout revisions location = (textAt location revisions text).toOption := by
  rw [textAfter?, htext]

theorem textAfter?_eq_some_iff {new : String} :
    textAfter? checkout revisions location = some new ↔
      ∃ text, checkout.content? location = some (.text text)
        ∧ textAt location revisions text = .ok new := by
  unfold textAfter?
  split
  next text htext => simp [htext, except_toOption_eq_some_iff]
  next hnone =>
    constructor
    · intro h
      cases h
    · rintro ⟨text, htext, -⟩
      exact absurd htext (hnone text)

/-- Revisions of different files can be made together when each can be made. -/
theorem exists_textAt_of_applies (hnodup : (revisions.map Revision.location).Nodup)
    (happlies : ∀ revision ∈ revisions, revision.Applies before)
    {text : String} (htext : before.content? location = some (.text text)) :
    ∃ new, textAt location revisions text = .ok new := by
  rcases textAt_cases hnodup location with ⟨revision, hmem, rfl, hchange⟩ | hsame
  · obtain ⟨text', new, htext', hnew⟩ := happlies revision hmem
    rw [htext, Option.some.injEq, Content.text.injEq] at htext'
    subst htext'
    exact ⟨new, (hchange text).trans hnew⟩
  · exact ⟨text, hsame text⟩

theorem textAfter?_congr {other : Checkout}
    (h : other.content? location = checkout.content? location) :
    textAfter? other revisions location = textAfter? checkout revisions location := by
  rw [textAfter?, h, ← textAfter?]

/-- Later revisions go on with the text that the earlier ones leave. -/
theorem textAfter?_append :
    textAfter? checkout (first ++ second) location =
      (textAfter? checkout first location).bind fun text => (textAt location second text).toOption := by
  unfold textAfter?
  split
  next text htext =>
    rw [textAt_append]
    cases textAt location first text <;> rfl
  next => rfl

theorem textAfter?_append_of_forall_ne (h : ∀ revision ∈ second, revision.location ≠ location) :
    textAfter? checkout (first ++ second) location = textAfter? checkout first location := by
  rw [textAfter?_append]
  cases textAfter? checkout first location with
  | none => rfl
  | some text => rw [Option.bind_some, textAt_of_forall_ne h, Except.toOption]

theorem textAfter?_append_of_mem (hmem : revision ∈ second)
    (hnodup : (second.map Revision.location).Nodup) :
    textAfter? checkout (first ++ second) revision.location =
      textAfter? checkout (first ++ [revision]) revision.location := by
  rw [textAfter?_append, textAfter?_append]
  congr
  funext text
  rw [textAt_of_mem hmem hnodup, textAt_singleton]

/-- What a revision reports follows from the text that it finds. -/
theorem changeAfter_congr {other : Checkout}
    (h : textAfter? other first revision.location = textAfter? checkout second revision.location) :
    changeAfter other first revision = changeAfter checkout second revision := by
  rw [changeAfter, textAfter?_append, h, ← textAfter?_append, changeAfter]

theorem changeAfter_of_textAfter? {text new : String}
    (htext : textAfter? checkout earlier revision.location = some text)
    (hnew : revision.change text = .ok new) :
    changeAfter checkout earlier revision = if text = new then .unchanged else .written := by
  have hlast : textAfter? checkout (earlier ++ [revision]) revision.location = some new := by
    rw [textAfter?_append, htext, Option.bind_some, textAt_singleton, hnew]
    rfl
  rw [changeAfter, htext, hlast]
  simp only [Option.some.injEq]

theorem changeAfter_eq_written_iff :
    changeAfter checkout earlier revision = .written ↔
      textAfter? checkout (earlier ++ [revision]) revision.location ≠
        textAfter? checkout earlier revision.location := by
  unfold changeAfter
  split
  next hsame => simp [hsame]
  next hother => simp [Ne.symm hother]

/-- Among revisions of different files, one reports a change exactly for each file of which they change
the text. -/
theorem mem_locations_written_iff (hnodup : (revisions.map Revision.location).Nodup) :
    location ∈ (revisions.filter fun revision =>
        changeAfter checkout earlier revision = .written).map Revision.location ↔
      textAfter? checkout (earlier ++ revisions) location ≠ textAfter? checkout earlier location := by
  simp only [List.mem_map, List.mem_filter, decide_eq_true_eq, changeAfter_eq_written_iff]
  constructor
  · rintro ⟨revision, ⟨hmem, hwritten⟩, rfl⟩
    rwa [textAfter?_append_of_mem hmem hnodup]
  · intro hne
    by_cases hmem : ∃ revision ∈ revisions, revision.location = location
    · obtain ⟨revision, hmem, rfl⟩ := hmem
      rw [textAfter?_append_of_mem hmem hnodup] at hne
      exact ⟨revision, ⟨hmem, hne⟩, rfl⟩
    · refine absurd (textAfter?_append_of_forall_ne ?_) hne
      intro revision hrevision heq
      exact hmem ⟨revision, hrevision, heq⟩

end Revision

namespace Revised

open Revision

theorem append_iff :
    Revised (first ++ second) before after ↔
      ∃ middle, Revised first before middle ∧ Revised second middle after := by
  constructor
  · intro h
    induction first generalizing before with
    | nil => exact ⟨before, .nil before, h⟩
    | cons head rest ih =>
        cases h with
        | cons htext hchange hstep hrest =>
            obtain ⟨middle, hfirst, hsecond⟩ := ih hrest
            exact ⟨middle, .cons htext hchange hstep hfirst, hsecond⟩
  · rintro ⟨middle, hfirst, hsecond⟩
    exact hfirst.append hsecond

/-- The texts after some revisions go on from those that earlier ones left. -/
theorem textAfter?_eq (h : Revised first before after) (second : List Revision)
    (location : Location) :
    textAfter? after second location = textAfter? before (first ++ second) location := by
  by_cases htext : ∃ text, before.content? location = some (.text text)
  · obtain ⟨text, htext⟩ := htext
    obtain ⟨new, hnew, hafter⟩ := h.textAt_eq_ok htext
    rw [textAfter?_of_content? hafter, textAfter?_of_content? htext, textAt_append, hnew]
    rfl
  · have hnone : ∀ text, before.content? location ≠ some (.text text) :=
      fun text heq => htext ⟨text, heq⟩
    rw [textAfter?, h.content?_of_forall_ne_text hnone, ← textAfter?, textAfter?_append]
    have hbefore (revisions : List Revision) : textAfter? before revisions location = none := by
      unfold textAfter?
      split
      next text heq => exact absurd heq (hnone text)
      next => rfl
    rw [hbefore, hbefore, Option.bind_none]

/-- Revisions can be made one after the other exactly if each file holds a text that its own revisions
can change. -/
theorem exists_iff :
    (∃ after, Revised revisions before after) ↔
      ∀ revision ∈ revisions, ∃ new, textAfter? before revisions revision.location = some new := by
  constructor
  · rintro ⟨after, h⟩ revision hmem
    obtain ⟨text, htext⟩ := h.exists_text hmem
    obtain ⟨new, hnew, -⟩ := h.textAt_eq_ok htext
    exact ⟨new, textAfter?_eq_some_iff.mpr ⟨text, htext, hnew⟩⟩
  · intro h
    induction revisions generalizing before with
    | nil => exact ⟨before, .nil before⟩
    | cons head rest ih =>
        obtain ⟨last, hlast⟩ := h head List.mem_cons_self
        obtain ⟨text, htext, hmade⟩ := textAfter?_eq_some_iff.mp hlast
        rw [textAt_cons, changeAt, if_pos rfl, except_bind_eq_ok_iff] at hmade
        obtain ⟨new, hnew, -⟩ := hmade
        have hstep := rewritten_replace htext new
        have hhead : Revised [head] before (before.replace head.location (.text new)) :=
          .cons htext hnew hstep (.nil _)
        -- the later revisions find the texts that the first one leaves
        obtain ⟨after, hafter⟩ : ∃ after, Revised rest (before.replace head.location (.text new)) after := by
          apply ih
          intro revision hrevision
          rw [hhead.textAfter?_eq]
          exact h revision (List.mem_cons_of_mem _ hrevision)
        exact ⟨after, hhead.append hafter⟩

/-- Revisions of different files can be made one after the other when each can be made at first. -/
theorem exists_of_applies (hnodup : (revisions.map Revision.location).Nodup)
    (happlies : ∀ revision ∈ revisions, revision.Applies before) : ∃ after, Revised revisions before after := by
  refine exists_iff.mpr fun revision hrevision => ?_
  obtain ⟨text, -, htext, -⟩ := happlies revision hrevision
  obtain ⟨new, hnew⟩ := exists_textAt_of_applies hnodup happlies htext
  exact ⟨new, textAfter?_eq_some_iff.mpr ⟨text, htext, hnew⟩⟩

/-- Revisions of the same files that make the same texts of them have the same effect. -/
theorem of_textAfter? (h : Revised first before after)
    (hfiles : ∀ revision ∈ second, ∃ other ∈ first, other.location = revision.location)
    (htexts : ∀ location, textAfter? before second location = textAfter? before first location) :
    Revised second before after := by
  obtain ⟨last, hlast⟩ : ∃ last, Revised second before last := by
    apply exists_iff.mpr
    intro revision hrevision
    obtain ⟨other, hother, heq⟩ := hfiles revision hrevision
    rw [htexts, ← heq]
    exact exists_iff.mp ⟨after, h⟩ other hother
  -- both leave the same text in every file
  have hsame : last = after := by
    apply eq_of_sameTree
    · exact ⟨hlast.sameTree.files.trans h.sameTree.files.symm,
        hlast.sameTree.folders.trans h.sameTree.folders.symm⟩
    · intro location
      by_cases htext : ∃ text, before.content? location = some (.text text)
      · obtain ⟨text, htext⟩ := htext
        obtain ⟨new, hnew, hcontent⟩ := hlast.textAt_eq_ok htext
        obtain ⟨new', hnew', hcontent'⟩ := h.textAt_eq_ok htext
        have heq := htexts location
        rw [textAfter?_of_content? htext, textAfter?_of_content? htext, hnew, hnew'] at heq
        rw [hcontent, hcontent', Option.some.inj heq]
      · have hnone : ∀ text, before.content? location ≠ some (.text text) :=
          fun text heq => htext ⟨text, heq⟩
        rw [hlast.content?_of_forall_ne_text hnone, h.content?_of_forall_ne_text hnone]
  exact hsame ▸ hlast

end Revised

/-- Revisions were made in a mode: one after the other, or in a dry run each on the checkout as it is. -/
def Performed (mode : Mode) (revisions : List Revision) (before after : Checkout) : Prop :=
  match mode with
  | .write => Revised revisions before after
  | .dryRun => (∀ revision ∈ revisions, revision.Applies before) ∧ before = after

/-- The revisions of which the later ones see the texts. -/
def Mode.seen (mode : Mode) (revisions : List Revision) : List Revision :=
  match mode with
  | .write => revisions
  | .dryRun => []

namespace Performed

open Revision

theorem nil_iff : Performed mode [] before after ↔ before = after := by
  cases mode with
  | write =>
      constructor
      · intro h
        cases h
        rfl
      · rintro rfl
        exact Revised.nil before
  | dryRun => simp [Performed]

theorem append_iff :
    Performed mode (first ++ second) before after ↔
      ∃ middle, Performed mode first before middle ∧ Performed mode second middle after := by
  cases mode with
  | write => exact Revised.append_iff
  | dryRun =>
      simp only [Performed, List.forall_mem_append]
      constructor
      · rintro ⟨⟨hfirst, hsecond⟩, rfl⟩
        exact ⟨before, ⟨hfirst, rfl⟩, hsecond, rfl⟩
      · rintro ⟨middle, ⟨hfirst, rfl⟩, hsecond, rfl⟩
        exact ⟨⟨hfirst, hsecond⟩, rfl⟩

theorem cons_iff :
    Performed mode (revision :: revisions) before after ↔
      ∃ middle, Performed mode [revision] before middle ∧ Performed mode revisions middle after := by
  rw [← List.singleton_append, append_iff]

/-- Revisions of different files can be made in any mode when each can be made at first. -/
theorem exists_of_applies (hnodup : (revisions.map Revision.location).Nodup)
    (happlies : ∀ revision ∈ revisions, revision.Applies before) :
    ∃ after, Performed mode revisions before after := by
  cases mode with
  | write => exact Revised.exists_of_applies hnodup happlies
  | dryRun => exact ⟨before, happlies, rfl⟩

theorem sameTree (h : Performed mode revisions before after) : SameTree before after := by
  cases mode with
  | write => exact Revised.sameTree h
  | dryRun =>
      obtain ⟨-, rfl⟩ := h
      exact .refl before

theorem content?_of_forall_ne (h : Performed mode revisions before after)
    (hne : ∀ revision ∈ revisions, revision.location ≠ location) :
    after.content? location = before.content? location := by
  cases mode with
  | write => exact Revised.content?_of_forall_ne h hne
  | dryRun =>
      obtain ⟨-, rfl⟩ := h
      rfl

theorem textAfter?_eq (h : Performed mode first before after) (second : List Revision)
    (location : Location) :
    textAfter? after second location = textAfter? before (mode.seen first ++ second) location := by
  cases mode with
  | write => exact Revised.textAfter?_eq h second location
  | dryRun =>
      obtain ⟨-, rfl⟩ := h
      rfl

theorem changeAfter_eq (h : Performed mode first before after) (second : List Revision)
    (revision : Revision) :
    changeAfter after second revision = changeAfter before (mode.seen first ++ second) revision :=
  changeAfter_congr (h.textAfter?_eq second revision.location)

/-- What a revision reports is not changed by revisions of other files. -/
theorem changeAfter_of_forall_ne (h : Performed mode first before after)
    (hne : ∀ other ∈ first, other.location ≠ revision.location) :
    changeAfter after earlier revision = changeAfter before earlier revision :=
  changeAfter_congr (textAfter?_congr (h.content?_of_forall_ne hne))

/-- Among revisions of different files, the first does not change what the later ones report. -/
theorem changeAfter_of_mem (h : Performed mode first before after)
    (hnodup : ((first ++ second).map Revision.location).Nodup) (hmem : revision ∈ second) :
    changeAfter after earlier revision = changeAfter before earlier revision := by
  apply h.changeAfter_of_forall_ne
  intro other hother heq
  rw [List.map_append, List.nodup_append] at hnodup
  exact hnodup.2.2 _ (List.mem_map_of_mem hother) _ (List.mem_map_of_mem hmem) heq

end Performed

namespace Work

open Revision

/-- A revision succeeds exactly if it can be made, and reports whether the text of its file changes. -/
theorem revise_eq_ok_iff {change : Change} :
    (revise revision mode).run before = .ok change after ↔
      Performed mode [revision] before after ∧ change = revision.changeAfter before [] := by
  have hmade {text new : String} (htext : before.content? revision.location = some (.text text))
      (hnew : revision.change text = .ok new) :
      revision.changeAfter before [] = if text = new then .unchanged else .written :=
    changeAfter_of_textAfter? (textAfter?_eq_some_iff.mpr ⟨text, htext, rfl⟩) hnew
  rw [revise_eq_ok_iff_exists]
  constructor
  · rintro ⟨text, new, htext, hnew, hwrite⟩
    obtain ⟨hafter, rfl⟩ := (writeIfChanged_eq_ok_iff htext).mp hwrite
    refine ⟨?_, (hmade htext hnew).symm⟩
    cases mode with
    | write => exact .cons htext hnew hafter (.nil after)
    | dryRun => exact ⟨by simpa using ⟨text, new, htext, hnew⟩, hafter⟩
  · rintro ⟨hperformed, rfl⟩
    cases mode with
    | write =>
        cases hperformed with
        | cons htext hnew hstep hrest =>
            cases hrest
            refine ⟨_, _, htext, hnew, (writeIfChanged_eq_ok_iff htext).mpr ⟨hstep, hmade htext hnew⟩⟩
    | dryRun =>
        obtain ⟨happlies, hsame⟩ := hperformed
        obtain ⟨text, new, htext, hnew⟩ := happlies revision (List.mem_singleton_self revision)
        exact ⟨text, new, htext, hnew,
          (writeIfChanged_eq_ok_iff htext).mpr ⟨hsame, hmade htext hnew⟩⟩

/-- When items call for revisions of different files, all of them report what each would report first. -/
theorem reviseEach_eq_ok_iff {α : Type} {toRevision : α → Revision} {items : List α}
    {results : List (α × Change)} (hnodup : ((items.map toRevision).map Revision.location).Nodup) :
    (reviseEach toRevision mode items).run before = .ok results after ↔
      Performed mode (items.map toRevision) before after
        ∧ results = items.map fun item => (item, (toRevision item).changeAfter before []) := by
  induction items generalizing before results with
  | nil =>
      rw [List.map_nil, Performed.nil_iff, reviseEach, pure_eq_ok_iff, and_comm, List.map_nil,
        eq_comm (a := results)]
  | cons item rest ih =>
      have hrest := (List.nodup_cons.mp hnodup).2
      have hlater {middle : Checkout} (h : Performed mode [toRevision item] before middle) :
          (rest.map fun other => (other, (toRevision other).changeAfter middle [])) =
            rest.map fun other => (other, (toRevision other).changeAfter before []) := by
        apply List.map_congr_left
        intro other hother
        rw [h.changeAfter_of_mem hnodup (List.mem_map_of_mem hother)]
      rw [List.map_cons, Performed.cons_iff, reviseEach, List.map_cons]
      constructor
      · intro h
        obtain ⟨change, middle, hhead, h⟩ := bind_eq_ok_iff.mp h
        obtain ⟨others, last, hothers, h⟩ := bind_eq_ok_iff.mp h
        obtain ⟨rfl, rfl⟩ := pure_eq_ok_iff.mp h
        obtain ⟨hfirst, rfl⟩ := revise_eq_ok_iff.mp hhead
        obtain ⟨hafter, rfl⟩ := (ih hrest).mp hothers
        rw [hlater hfirst]
        exact ⟨⟨middle, hfirst, hafter⟩, rfl⟩
      · rintro ⟨⟨middle, hfirst, hafter⟩, rfl⟩
        refine bind_eq_ok_iff.mpr ⟨_, middle, revise_eq_ok_iff.mpr ⟨hfirst, rfl⟩, ?_⟩
        refine bind_eq_ok_iff.mpr ⟨_, after, (ih hrest).mpr ⟨hafter, rfl⟩, ?_⟩
        rw [hlater hfirst]
        rfl

theorem map_reviseEach_eq_ok_iff {α β : Type} {toRevision : α → Revision} {items : List α}
    {read : List (α × Change) → β} {report : β}
    (hnodup : ((items.map toRevision).map Revision.location).Nodup) :
    (read <$> reviseEach toRevision mode items).run before = .ok report after ↔
      Performed mode (items.map toRevision) before after
        ∧ report = read (items.map fun item => (item, (toRevision item).changeAfter before [])) := by
  rw [map_eq_ok_iff]
  simp only [reviseEach_eq_ok_iff hnodup]
  constructor
  · rintro ⟨results, ⟨hperformed, rfl⟩, rfl⟩
    exact ⟨hperformed, rfl⟩
  · rintro ⟨hperformed, rfl⟩
    exact ⟨_, ⟨hperformed, rfl⟩, rfl⟩

end Work

end Bindery
