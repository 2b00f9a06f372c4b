import Bindery.Proofs.Leading
import Bindery.Proofs.Locality

/-!
# Comments without markers

When a header is renewed, the blocks of the file are the same behind the new comment as behind the old one,
unless one of the comments holds a marker. So the revisions of a target can be made one after the other
exactly if each can be made of the files as they are.
-/

namespace Bindery

open Checkout Generation

variable {before : Checkout} {interface : Interface} {root : Path} {target : Target} {location : Location}

/-- No comment at the start of a C or C++ file holds a marker. -/
def Checkout.CommentsUnmarked (checkout : Checkout) : Prop :=
  ∀ location text, checkout.content? location = some (.text text) →
    ∀ name, location.getLast? = some name → Path.hasExtension headerExtensions ⟨name⟩ →
      ∀ comment, Header.leading? text = some comment → Block.Unmarked comment

/-- It is enough to look at the comments of the files. -/
theorem Checkout.commentsUnmarked_of_all {checkout : Checkout}
    (h : checkout.files.all fun file => (Revision.textAfter? checkout [] file.1).all fun text =>
      (Header.leading? text).all fun comment => Block.Unmarked comment) :
    checkout.CommentsUnmarked := by
  intro location text htext name _ _ comment hcomment
  have hfile := List.all_eq_true.mp h _ (mem_files_of_content? htext)
  have hnow : Revision.textAfter? checkout [] location = some text :=
    Revision.textAfter?_eq_some_iff.mpr ⟨text, htext, rfl⟩
  simpa [hnow, hcomment] using hfile

/-- New lines for the blocks of a file can be set behind another comment, with the same effect. -/
theorem FileEdits.change_of_sameBehind {group : FileEdits} {text other new : String}
    (h : Block.SameBehind text other)
    (hnew : (group.revision root Finisher.identity).change text = .ok new) :
    ∃ new', (group.revision root Finisher.identity).change other = .ok new'
      ∧ (new' = other ↔ new = text) := by
  have hchange (source : String) : (group.revision root Finisher.identity).change source =
      Block.spliceAll (root.join group.path.text) source group.blocks :=
    Work.finished_identity _ _ _
  rw [hchange] at hnew ⊢
  exact h.spliceAll_eq_ok hnew

namespace Target

section Comments

variable (hcopyright : Block.Unmarked interface.copyright.toList) (hcomments : before.CommentsUnmarked)
include hcopyright hcomments

/-- Renewing the header of a file keeps what stands behind the comment. -/
theorem sameBehind_of_headerStep {text renewed : String}
    (htext : before.content? location = some (.text text))
    (h : target.HeaderStep root interface.copyright location text renewed) :
    Block.SameBehind text renewed := by
  rcases h with ⟨⟨folder, -, between, name, rfl, hextension⟩, hrenewed⟩ | ⟨-, rfl⟩
  · refine Header.sameBehind_of_renew?_eq_some hcopyright.1 ?_ hrenewed
    intro comment hcomment
    exact (hcomments _ text htext name (by simp) hextension comment hcomment).1
  · exact .refl _

/-- The texts that the blocks of a file are set into, in a dry run and in a real one. -/
theorem exists_sameBehind {text : String} (htext : before.content? location = some (.text text))
    (happlies : ∀ revision ∈ headerRevisions before root interface.copyright target.emitter.headerFolders,
      revision.Applies before) :
    ∃ renewed, Revision.textAt location
        (headerRevisions before root interface.copyright target.emitter.headerFolders) text = .ok renewed
      ∧ Block.SameBehind text renewed := by
  obtain ⟨renewed, hrenewed⟩ :=
    Revision.exists_textAt_of_applies nodup_locations_headerRevisions happlies htext
  exact ⟨renewed, hrenewed,
    sameBehind_of_headerStep hcopyright hcomments htext (headerStep_of_textAt_eq_ok htext hrenewed)⟩

variable (hemit : target.Emits before interface root)
include hemit

/-- The revisions of a target can be made one after the other exactly if each can be made on the checkout
as it is. -/
theorem forall_applies_iff :
    (∀ revision ∈ target.revisions before interface root, revision.Applies before) ↔
      ∀ revision ∈ target.revisions before interface root, ∃ new,
        Revision.textAfter? before (target.revisions before interface root) revision.location = some new := by
  let headers := headerRevisions before root interface.copyright target.emitter.headerFolders
  let edits := editRevisions root Finisher.identity (target.edits interface ⟨before, root⟩)
  have hnodup : (edits.map Revision.location).Nodup := nodup_locations_editRevisions hemit
  have hsplit : target.revisions before interface root = headers ++ edits := rfl
  rw [hsplit]
  constructor
  · intro happlies
    have hheaders := fun revision hrevision => happlies revision (List.mem_append_left _ hrevision)
    intro revision hrevision
    obtain ⟨text, -, htext, -⟩ := happlies revision hrevision
    obtain ⟨renewed, hrenewed, hsame⟩ := exists_sameBehind hcopyright hcomments htext hheaders
    -- an edit that can be made of the old text can be made of the renewed one
    obtain ⟨final, hfinal⟩ : ∃ final, Revision.textAt revision.location edits renewed = .ok final := by
      rcases Revision.textAt_cases hnodup revision.location with ⟨edit, hedit, hlocation, hchange⟩ | hkept
      · obtain ⟨text', new, htext', hnew⟩ := happlies edit (List.mem_append_right _ hedit)
        rw [hlocation, htext, Option.some.injEq, Content.text.injEq] at htext'
        subst htext'
        rw [hchange]
        obtain ⟨group, -, rfl⟩ := List.mem_map.mp hedit
        obtain ⟨final, hfinal, -⟩ := FileEdits.change_of_sameBehind hsame hnew
        exact ⟨final, hfinal⟩
      · exact ⟨renewed, hkept renewed⟩
    refine ⟨final, Revision.textAfter?_eq_some_iff.mpr ⟨text, htext, ?_⟩⟩
    rw [Revision.textAt_append, hrenewed]
    exact hfinal
  · intro hmade revision hrevision
    obtain ⟨final, hfinal⟩ := hmade revision hrevision
    obtain ⟨text, htext, hfinal⟩ := Revision.textAfter?_eq_some_iff.mp hfinal
    rw [Revision.textAt_append, except_bind_eq_ok_iff] at hfinal
    obtain ⟨renewed, hrenewed, hfinal⟩ := hfinal
    rcases List.mem_append.mp hrevision with hheader | hedit
    · rw [Revision.textAt_of_mem hheader nodup_locations_headerRevisions] at hrenewed
      exact ⟨text, renewed, htext, hrenewed⟩
    · have hsame := sameBehind_of_headerStep hcopyright hcomments htext
        (headerStep_of_textAt_eq_ok htext hrenewed)
      rw [Revision.textAt_of_mem hedit hnodup] at hfinal
      obtain ⟨group, -, rfl⟩ := List.mem_map.mp hedit
      obtain ⟨new, hnew, -⟩ := FileEdits.change_of_sameBehind hsame.symm hfinal
      exact ⟨text, new, htext, hnew⟩

end Comments

end Target

/-- The revisions of targets can be made exactly if each can be made on the checkout as it is. -/
theorem Generation.exists_revised_iff_applies {targets : List Target} (hnodup : targets.Nodup)
    (hcopyright : Block.Unmarked interface.copyright.toList) (hcomments : before.CommentsUnmarked)
    (hemit : ∀ target ∈ targets, target.Emits before interface root) :
    (∃ after, Revised (targets.flatMap (Target.revisions before interface root)) before after) ↔
      ∀ target ∈ targets, ∀ revision ∈ target.revisions before interface root, revision.Applies before := by
  rw [exists_revised_iff hnodup hemit]
  apply forall₂_congr
  intro target htarget
  exact (Target.forall_applies_iff hcopyright hcomments (hemit target htarget)).symm

/-- A run that writes succeeds when each of its revisions can be made on the checkout as it is. -/
theorem Request.exists_run_of_applies {launch : Formatter.Launcher} {request : Request}
    (hmode : request.mode = .write) (hformatter : request.formatter? = none)
    (hcopyright : Block.Unmarked interface.copyright.toList) (hcomments : before.CommentsUnmarked)
    (hflags : interface.checkFlags = .ok ())
    (hemit : ∀ target ∈ Target.select request.targets, target.Emits before interface request.root)
    (hentered : ∀ target ∈ Target.select request.targets,
      Entered before request.root target.emitter.headerFolders)
    (happlies : ∀ target ∈ Target.select request.targets,
      ∀ revision ∈ target.revisions before interface request.root, revision.Applies before) :
    ∃ generation after, (request.run launch interface).run before = .ok generation after := by
  have hnodup := Target.nodup_select request.targets
  obtain ⟨after, hafter⟩ := (exists_revised_iff_applies hnodup hcopyright hcomments hemit).mpr happlies
  refine ⟨_, after, (run_eq_ok_iff_performed hformatter).mpr ⟨hflags, hemit, hentered, ?_, rfl⟩⟩
  rw [hmode]
  exact hafter

end Bindery
