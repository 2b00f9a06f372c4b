import Bindery.Proofs.Checkout
import Bindery.Proofs.Outcome

/-!
# Revisions

All that is written to a checkout is written by revisions: a file is read, its text is changed, and the
new text is written in place of the old one. What a file holds after several revisions is determined by
those of this file alone, in their order.
-/

namespace Bindery

open Checkout

/-- A change of the text of one file. -/
structure Revision where
  path : Path
  change : String → Except FileError String

namespace Revision

/-- Where the file is that is revised. -/
def location (revision : Revision) : Location := revision.path.location

/-- The text of the file at a location after one revision. -/
def changeAt (location : Location) (text : String) (revision : Revision) :
    Except FileError String :=
  if revision.location = location then revision.change text else .ok text

/-- The text of the file at a location after several revisions. -/
def textAt (location : Location) (revisions : List Revision) (text : String) :
    Except FileError String :=
  revisions.foldlM (changeAt location) text

variable {location : Location} {revision : Revision} {revisions first second : List Revision}

theorem textAt_append (text : String) :
    textAt location (first ++ second) text = textAt location first text >>= textAt location second :=
  List.foldlM_append

theorem textAt_cons (text : String) :
    textAt location (revision :: revisions) text =
      changeAt location text revision >>= textAt location revisions :=
  List.foldlM_cons

/-- Revisions of other files are not noticed. -/
theorem textAt_of_forall_ne (h : ∀ revision ∈ revisions, revision.location ≠ location)
    (text : String) : textAt location revisions text = .ok text := by
  induction revisions with
  | nil => rfl
  | cons revision rest ih =>
      have hne := h revision List.mem_cons_self
      rw [textAt_cons, changeAt, if_neg hne]
      exact ih fun other hother => h other (List.mem_cons_of_mem _ hother)

/-- Among revisions of different files, only one is noticed. -/
theorem textAt_of_mem (hmem : revision ∈ revisions) (hnodup : (revisions.map Revision.location).Nodup)
    (text : String) : textAt revision.location revisions text = revision.change text := by
  obtain ⟨front, back, rfl⟩ := List.append_of_mem hmem
  rw [List.map_append, List.map_cons, List.nodup_append, List.nodup_cons] at hnodup
  obtain ⟨-, ⟨hback, -⟩, hfront⟩ := hnodup
  have hfront' : ∀ other ∈ front, other.location ≠ revision.location := fun other hother =>
    hfront other.location (List.mem_map_of_mem hother) revision.location List.mem_cons_self
  have hback' : ∀ other ∈ back, other.location ≠ revision.location := fun other hother heq =>
    hback (heq ▸ List.mem_map_of_mem hother)
  have hlast (new : String) : textAt revision.location back new = .ok new :=
    textAt_of_forall_ne hback' new
  rw [textAt_append, textAt_of_forall_ne hfront']
  change textAt revision.location (revision :: back) text = revision.change text
  rw [textAt_cons, changeAt, if_pos rfl]
  cases revision.change text with
  | error error => rfl
  | ok new => exact hlast new

theorem textAt_cases (hnodup : (revisions.map Revision.location).Nodup) (location : Location) :
    (∃ revision ∈ revisions, revision.location = location
        ∧ ∀ text, textAt location revisions text = revision.change text)
      ∨ ∀ text, textAt location revisions text = .ok text := by
  by_cases hmem : ∃ revision ∈ revisions, revision.location = location
  · obtain ⟨revision, hmem, rfl⟩ := hmem
    exact Or.inl ⟨revision, hmem, rfl, textAt_of_mem hmem hnodup⟩
  · exact Or.inr (textAt_of_forall_ne fun revision hrevision heq => hmem ⟨revision, hrevision, heq⟩)

/-- The first revisions of different files leave a text as it is, or do to it what all of them do. -/
theorem textAt_of_prefix {text new : String} (hinitial : first <+: revisions)
    (hnodup : (revisions.map Revision.location).Nodup) (h : textAt location first text = .ok new) :
    new = text ∨ textAt location revisions text = .ok new := by
  have hfirst : (first.map Revision.location).Nodup := (hinitial.sublist.map _).nodup hnodup
  rcases textAt_cases hfirst location with ⟨revision, hmem, rfl, hchange⟩ | hsame
  · right
    rwa [textAt_of_mem (hinitial.subset hmem) hnodup, ← hchange]
  · left
    rw [hsame] at h
    exact (Except.ok.inj h).symm

/-- A revision that has nothing left to do. -/
def Settled (checkout : Checkout) (revision : Revision) : Prop :=
  ∃ text, checkout.content? revision.location = some (.text text) ∧ revision.change text = .ok text

end Revision

/-- A checkout after several revisions, one after the other. -/
inductive Revised : List Revision → Checkout → Checkout → Prop
  | nil (checkout : Checkout) : Revised [] checkout checkout
  | cons {revision : Revision} {rest : List Revision} {before middle after : Checkout}
      {text new : String} (htext : before.content? revision.location = some (.text text))
      (hchange : revision.change text = .ok new)
      (hstep : Rewritten before revision.location new middle) (hrest : Revised rest middle after) :
      Revised (revision :: rest) before after

namespace Revised

variable {before middle after : Checkout} {revisions first second : List Revision}
  {location : Location}

theorem append (h : Revised first before middle) (h' : Revised second middle after) :
    Revised (first ++ second) before after := by
  induction h with
  | nil => exact h'
  | cons htext hchange hstep _ ih => exact .cons htext hchange hstep (ih h')

theorem sameTree (h : Revised revisions before after) : SameTree before after := by
  induction h with
  | nil checkout => exact .refl checkout
  | cons _ _ hstep _ ih => exact hstep.sameTree.trans ih

/-- What a file holds stays when no revision is one of this file. -/
theorem content?_of_forall_ne (h : Revised revisions before after)
    (hne : ∀ revision ∈ revisions, revision.location ≠ location) :
    after.content? location = before.content? location := by
  induction h with
  | nil => rfl
  | cons _ _ hstep _ ih =>
      have hhead := hne _ List.mem_cons_self
      rw [ih fun other hother => hne other (List.mem_cons_of_mem _ hother),
        hstep.frame location hhead.symm]

/-- Only files that hold a text are revised. -/
theorem exists_text (h : Revised revisions before after) {revision : Revision}
    (hmem : revision ∈ revisions) :
    ∃ text, before.content? revision.location = some (.text text) := by
  induction h with
  | nil => cases hmem
  | @cons head rest before middle after text new htext hchange hstep hrest ih =>
      rcases List.mem_cons.mp hmem with rfl | htail
      · exact ⟨text, htext⟩
      · obtain ⟨text', htext'⟩ := ih htail
        -- the later revision may be one of the same file
        by_cases hsame : revision.location = head.location
        · exact ⟨text, hsame ▸ htext⟩
        · exact ⟨text', (hstep.frame _ hsame).symm.trans htext'⟩

/-- A file that holds a text holds what the revisions make of it. -/
theorem textAt_eq_ok (h : Revised revisions before after) {text : String}
    (htext : before.content? location = some (.text text)) :
    ∃ new, Revision.textAt location revisions text = .ok new
      ∧ after.content? location = some (.text new) := by
  induction h generalizing text with
  | nil => exact ⟨text, rfl, htext⟩
  | cons hold hchange hstep _ ih =>
      rw [Revision.textAt_cons, Revision.changeAt]
      split
      next hsame =>
        subst hsame
        rw [hold, Option.some.injEq, Content.text.injEq] at htext
        subst htext
        rw [hchange]
        exact ih hstep.content
      next hother => exact ih ((hstep.frame location (Ne.symm hother)).trans htext)

/-- What is no text is kept. -/
theorem content?_of_forall_ne_text (h : Revised revisions before after)
    (hnone : ∀ text, before.content? location ≠ some (.text text)) :
    after.content? location = before.content? location := by
  refine h.content?_of_forall_ne fun revision hmem heq => ?_
  obtain ⟨text, htext⟩ := h.exists_text hmem
  exact hnone text (heq ▸ htext)

end Revised

namespace Work

variable {checkout before after : Checkout} {revision : Revision}

/-- Changes the text of a file, and writes it unless it stays what it is. -/
def revise (revision : Revision) (mode : Mode) : Work FileError Change := do
  let current ← readFile revision.path
  let new ← ofExcept (revision.change current)
  writeIfChanged revision.path current new mode

theorem readFile_eq_ok_iff {path : Path} {text : String} :
    (readFile path).run before = .ok text after ↔
      before.content? path.location = some (.text text) ∧ before = after := by
  rw [← read_eq_ok_iff, readFile, bind_eq_ok_iff]
  constructor
  · rintro ⟨checkout, middle, hget, h⟩
    cases hget
    split at h
    next text' hread =>
      obtain ⟨rfl, hsame⟩ := pure_eq_ok_iff.mp h
      exact ⟨hread, hsame⟩
    next => cases h
  · rintro ⟨hread, rfl⟩
    refine ⟨before, before, rfl, ?_⟩
    rw [hread]
    rfl

theorem eq_of_readFile_eq_error {path : Path} {error : FileError}
    (h : (readFile path).run before = .error error after) : after = before := by
  rw [readFile, run_get_bind] at h
  split at h <;> cases h
  rfl

theorem writeFile_of_content? {path : Path} {old : Content}
    (hold : before.content? path.location = some old) (text : String) :
    (writeFile path text).run before = .ok () (before.replace path.location (.text text)) := by
  unfold writeFile
  rw [run_get_bind, write_eq_ok hold]
  rfl

/-- A file that is there is rewritten, in a run that is not dry, and reported as written exactly if its
text changes. -/
theorem writeIfChanged_eq_ok_iff {path : Path} {text new : String} {mode : Mode} {change : Change}
    (htext : before.content? path.location = some (.text text)) :
    (writeIfChanged path text new mode).run before = .ok change after ↔
      (match mode with
        | .write => Rewritten before path.location new after
        | .dryRun => before = after)
      ∧ change = if text = new then .unchanged else .written := by
  unfold writeIfChanged
  -- a text that stays what it is is not written, which rewrites the file with it all the same
  by_cases hsame : text = new
  · subst hsame
    have hrefl : Rewritten before path.location text before := ⟨.refl before, htext, fun _ _ => rfl⟩
    rw [if_pos rfl, if_pos rfl, pure_eq_ok_iff, and_comm, eq_comm (a := change)]
    cases mode with
    | write =>
        refine and_congr_left fun _ => ⟨?_, fun h => h.unique hrefl⟩
        rintro rfl
        exact hrefl
    | dryRun => exact Iff.rfl
  · rw [if_neg hsame, if_neg hsame]
    cases mode with
    | write =>
        have hreplaced := rewritten_replace htext new
        simp only [bind_eq_ok_iff, writeFile_of_content? htext, pure_eq_ok_iff]
        constructor
        · rintro ⟨_, middle, hmiddle, rfl, rfl⟩
          cases hmiddle
          exact ⟨hreplaced, rfl⟩
        · rintro ⟨hrewritten, rfl⟩
          refine ⟨(), _, rfl, rfl, ?_⟩
          exact hrewritten.unique hreplaced
    | dryRun => rw [pure_eq_ok_iff, and_comm, eq_comm (a := change)]

/-- A revision succeeds exactly if its file holds a text that it can change. -/
theorem revise_eq_ok_iff_exists {mode : Mode} {change : Change} :
    (revise revision mode).run before = .ok change after ↔
      ∃ text new, before.content? revision.location = some (.text text)
        ∧ revision.change text = .ok new
        ∧ (writeIfChanged revision.path text new mode).run before = .ok change after := by
  simp only [revise, bind_eq_ok_iff, readFile_eq_ok_iff, ofExcept_eq_ok_iff]
  constructor
  · rintro ⟨text, start, ⟨htext, rfl⟩, new, middle, ⟨hnew, rfl⟩, hwrite⟩
    exact ⟨text, new, htext, hnew, hwrite⟩
  · rintro ⟨text, new, htext, hnew, hwrite⟩
    exact ⟨text, before, ⟨htext, rfl⟩, new, before, ⟨hnew, rfl⟩, hwrite⟩

/-- A settled revision changes nothing and says so. -/
theorem revise_of_settled (h : revision.Settled checkout) (mode : Mode) :
    (revise revision mode).run checkout = .ok .unchanged checkout := by
  obtain ⟨text, htext, hchange⟩ := h
  refine revise_eq_ok_iff_exists.mpr ⟨text, text, htext, hchange, ?_⟩
  unfold writeIfChanged
  rw [if_pos rfl]
  rfl

/-- Makes the revisions that items call for one after the other; yields what each reports. -/
def reviseEach {α : Type} (toRevision : α → Revision) (mode : Mode) :
    List α → Work FileError (List (α × Change))
  | [] => pure []
  | item :: rest => do
      let change ← revise (toRevision item) mode
      let others ← reviseEach toRevision mode rest
      pure ((item, change) :: others)

theorem reviseEach_of_settled {α : Type} {toRevision : α → Revision} {items : List α}
    (h : ∀ item ∈ items, (toRevision item).Settled checkout) (mode : Mode) :
    (reviseEach toRevision mode items).run checkout =
      .ok (items.map fun item => (item, .unchanged)) checkout := by
  induction items with
  | nil => rfl
  | cons item rest ih =>
      obtain ⟨hitem, hrest⟩ := List.forall_mem_cons.mp h
      apply bind_eq_ok_iff.mpr
      refine ⟨.unchanged, checkout, revise_of_settled hitem mode, ?_⟩
      exact bind_eq_ok_iff.mpr ⟨_, checkout, ih hrest, rfl⟩

/-! Work that makes revisions may stop before the last of them. -/

/-- A computation makes revisions: all of them when it succeeds, and the first of them when it fails. -/
structure CarriesOut {ε α : Type} (work : Work ε α) (revisions : List Revision) (before : Checkout) :
    Prop where
  revised : ∀ {a after}, work.run before = .ok a after → Revised revisions before after
  exists_done : ∀ {error after}, work.run before = .error error after →
    ∃ done, done <+: revisions ∧ Revised done before after

section CarriesOut

variable {ε α β : Type} {first second revisions : List Revision}

theorem carriesOut_pure (a : α) (before : Checkout) : CarriesOut (pure a : Work ε α) [] before := by
  constructor
  · intro b after h
    obtain ⟨-, rfl⟩ := pure_eq_ok_iff.mp h
    exact .nil before
  · intro error after h
    cases h

theorem carriesOut_throw (error : ε) (revisions : List Revision) (before : Checkout) :
    CarriesOut (throw error : Work ε α) revisions before := by
  constructor
  · intro a after h
    cases h
  · intro error after h
    cases h
    exact ⟨[], List.nil_prefix, .nil before⟩

theorem CarriesOut.get_bind {f : Checkout → Work ε β} (h : CarriesOut (f before) revisions before) :
    CarriesOut (get >>= f) revisions before := by
  constructor
  · intro b after hrun
    rw [run_get_bind] at hrun
    exact h.revised hrun
  · intro error after hrun
    rw [run_get_bind] at hrun
    exact h.exists_done hrun

theorem CarriesOut.bind {x : Work ε α} {f : α → Work ε β} (hx : CarriesOut x first before)
    (hf : ∀ a middle, Revised first before middle → CarriesOut (f a) second middle) :
    CarriesOut (x >>= f) (first ++ second) before := by
  constructor
  · intro b after h
    obtain ⟨a, middle, hfirst, h⟩ := bind_eq_ok_iff.mp h
    have hrevised := hx.revised hfirst
    exact hrevised.append ((hf a middle hrevised).revised h)
  · intro error after h
    rcases bind_eq_error_iff.mp h with hfails | ⟨a, middle, hfirst, h⟩
    · obtain ⟨done, hdone, hmade⟩ := hx.exists_done hfails
      exact ⟨done, hdone.trans (List.prefix_append first second), hmade⟩
    · have hrevised := hx.revised hfirst
      obtain ⟨done, hdone, hmade⟩ := (hf a middle hrevised).exists_done h
      exact ⟨first ++ done, (List.prefix_append_right_inj first).mpr hdone, hrevised.append hmade⟩

theorem CarriesOut.map {x : Work ε α} (h : CarriesOut x revisions before) (f : α → β) :
    CarriesOut (f <$> x) revisions before := by
  rw [map_eq_pure_bind, ← List.append_nil revisions]
  exact h.bind fun a middle _ => carriesOut_pure (f a) middle

/-- The state that a failed revision leaves is the one that it found. -/
theorem eq_of_revise_eq_error {error : FileError}
    (h : (revise revision .write).run before = .error error after) : after = before := by
  rcases bind_eq_error_iff.mp h with hfails | ⟨text, middle, htext, h⟩
  · exact eq_of_readFile_eq_error hfails
  · obtain ⟨hcontent, rfl⟩ := readFile_eq_ok_iff.mp htext
    rcases bind_eq_error_iff.mp h with hfails | ⟨new, middle, hnew, h⟩
    · exact (ofExcept_eq_error_iff.mp hfails).2.symm
    -- a file that was read can be written
    · obtain ⟨-, rfl⟩ := ofExcept_eq_ok_iff.mp hnew
      have hwrite : (writeIfChanged revision.path text new .write).run before = .ok _ _ :=
        (writeIfChanged_eq_ok_iff hcontent).mpr ⟨rewritten_replace hcontent new, rfl⟩
      rw [h] at hwrite
      cases hwrite

theorem carriesOut_revise (revision : Revision) (before : Checkout) :
    CarriesOut (revise revision .write) [revision] before := by
  constructor
  · intro change after h
    obtain ⟨text, new, htext, hnew, hwrite⟩ := revise_eq_ok_iff_exists.mp h
    obtain ⟨hrewritten, -⟩ := (writeIfChanged_eq_ok_iff htext).mp hwrite
    exact .cons htext hnew hrewritten (.nil after)
  · intro error after h
    obtain rfl := eq_of_revise_eq_error h
    exact ⟨[], List.nil_prefix, .nil after⟩

theorem carriesOut_reviseEach (toRevision : α → Revision) (items : List α) (before : Checkout) :
    CarriesOut (reviseEach toRevision .write items) (items.map toRevision) before := by
  induction items generalizing before with
  | nil => exact carriesOut_pure [] before
  | cons item rest ih =>
      apply CarriesOut.bind (carriesOut_revise (toRevision item) before)
      intro change middle _
      exact (ih middle).map fun others => (item, change) :: others

end CarriesOut

end Work

end Bindery
