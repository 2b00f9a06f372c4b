import Bindery.Proofs.Comments
import Bindery.Proofs.Independence

/-!
# Prediction

In a dry run the blocks are replaced in texts with the old headers, in a real run in texts with the new
ones. Where no comment at the start of a file holds a marker, that makes no difference: a dry run succeeds
exactly if a real one does, and the same is reported.
-/

namespace Bindery

open Checkout Generation

variable {before : Checkout} {interface : Interface} {root : Path} {target : Target}

/-- The same is reported for a target in both modes when its revisions can be made. -/
theorem Target.reportAt_dryRun_eq (hcopyright : Block.Unmarked interface.copyright.toList)
    (hcomments : before.CommentsUnmarked)
    (happlies : ∀ revision ∈ target.revisions before interface root, revision.Applies before) :
    target.reportAt before interface root .dryRun = target.reportAt before interface root .write := by
  have hheaders := fun revision hrevision => happlies revision (List.mem_append_left _ hrevision)
  unfold reportAt reportOn
  simp only [TargetReport.mk.injEq, true_and]
  apply List.map_congr_left
  intro group hgroup
  have hrevision : group.revision root Finisher.identity ∈ target.revisions before interface root :=
    List.mem_append_right _ (List.mem_map_of_mem hgroup)
  obtain ⟨text, new, htext, hnew⟩ := happlies _ hrevision
  obtain ⟨renewed, hrenewed, hsame⟩ := exists_sameBehind hcopyright hcomments htext hheaders
  obtain ⟨new', hnew', hiff⟩ := FileEdits.change_of_sameBehind hsame hnew
  have hold : Revision.textAfter? before (Mode.dryRun.seen (headerRevisions before root
      interface.copyright target.emitter.headerFolders)) _ = some text :=
    Revision.textAfter?_eq_some_iff.mpr ⟨text, htext, rfl⟩
  have hrenewed : Revision.textAfter? before (Mode.write.seen (headerRevisions before root
      interface.copyright target.emitter.headerFolders)) _ = some renewed :=
    Revision.textAfter?_eq_some_iff.mpr ⟨text, htext, hrenewed⟩
  have hchanged : text = new ↔ renewed = new' := by
    rw [eq_comm, ← hiff, eq_comm]
  rw [Revision.changeAfter_of_textAfter? hold hnew, Revision.changeAfter_of_textAfter? hrenewed hnew']
  simp only [hchanged]

namespace Request

variable {launch : Formatter.Launcher} {request : Request}

/-- The request for a run in a mode. -/
def inMode (request : Request) (mode : Mode) : Request := { request with mode := mode }

/-- A dry run succeeds exactly if a real one does, and reports what the real one does, when neither the
copyright text nor a comment at the start of a C or C++ file holds a marker. -/
theorem run_predicted (hformatter : request.formatter? = none)
    (hcopyright : Block.Unmarked interface.copyright.toList) (hcomments : before.CommentsUnmarked) :
    ((∃ planned same,
          ((request.inMode .dryRun).run launch interface).run before = .ok planned same) ↔
        ∃ generation after,
          ((request.inMode .write).run launch interface).run before = .ok generation after)
      ∧ ∀ planned same generation after,
        ((request.inMode .dryRun).run launch interface).run before = .ok planned same →
        ((request.inMode .write).run launch interface).run before = .ok generation after →
        planned.version = generation.version ∧ planned.targets = generation.targets := by
  have hnone (mode : Mode) : (request.inMode mode).formatter? = none := hformatter
  have hmade (hemit : ∀ target ∈ Target.select request.targets, target.Emits before interface request.root) :=
    exists_revised_iff_applies (Target.nodup_select request.targets) hcopyright hcomments hemit
  constructor
  · constructor
    · rintro ⟨planned, same, hdry⟩
      obtain ⟨hflags, hemit, hentered, hperformed, -⟩ := (run_eq_ok_iff_performed (hnone .dryRun)).mp hdry
      obtain ⟨after, hafter⟩ := (hmade hemit).mpr fun target htarget revision hrevision =>
        hperformed.1 revision (List.mem_flatMap.mpr ⟨target, htarget, hrevision⟩)
      exact ⟨_, after, (run_eq_ok_iff_performed (hnone .write)).mpr ⟨hflags, hemit, hentered, hafter, rfl⟩⟩
    · rintro ⟨generation, after, hreal⟩
      obtain ⟨hflags, hemit, hentered, hperformed, -⟩ := (run_eq_ok_iff_performed (hnone .write)).mp hreal
      have happlies := (hmade hemit).mp ⟨after, hperformed⟩
      have hrehearsed : ∀ revision ∈ (Target.select request.targets).flatMap
          (Target.revisions before interface request.root), revision.Applies before := by
        intro revision hrevision
        obtain ⟨target, htarget, hmem⟩ := List.mem_flatMap.mp hrevision
        exact happlies target htarget revision hmem
      exact ⟨_, before, (run_eq_ok_iff_performed (hnone .dryRun)).mpr
        ⟨hflags, hemit, hentered, ⟨hrehearsed, rfl⟩, rfl⟩⟩
  · intro planned same generation after hdry hreal
    obtain ⟨-, -, -, -, rfl⟩ := (run_eq_ok_iff_performed (hnone .dryRun)).mp hdry
    obtain ⟨-, hemit, -, hperformed, rfl⟩ := (run_eq_ok_iff_performed (hnone .write)).mp hreal
    refine ⟨rfl, List.map_congr_left fun target htarget => ?_⟩
    exact Target.reportAt_dryRun_eq hcopyright hcomments ((hmade hemit).mp ⟨after, hperformed⟩ target htarget)

end Request

/-- A dry run over the sample, of which headers and blocks are out of date, reports what a real one does. -/
theorem Request.run_predicted_mixed :
    Block.Unmarked Sample.interface.copyright.toList ∧ Sample.mixed.CommentsUnmarked
      ∧ ∃ planned same generation after,
        ((Sample.mixedRequest.inMode .dryRun).run Sample.launch Sample.interface).run Sample.mixed =
            .ok planned same
          ∧ ((Sample.mixedRequest.inMode .write).run Sample.launch Sample.interface).run Sample.mixed =
            .ok generation after
          ∧ planned.targets = generation.targets := by
  have hformatter : Sample.mixedRequest.formatter? = none := rfl
  have hcopyright : Block.Unmarked Sample.interface.copyright.toList := by decide
  obtain ⟨generation, after, hreal⟩ := Sample.exists_run_mixed
  have hreal : ((Sample.mixedRequest.inMode .write).run Sample.launch Sample.interface).run Sample.mixed =
      .ok generation after := hreal
  obtain ⟨hiff, hsame⟩ := Request.run_predicted hformatter hcopyright Sample.commentsUnmarked_mixed
  obtain ⟨planned, same, hdry⟩ := hiff.mpr ⟨generation, after, hreal⟩
  exact ⟨hcopyright, Sample.commentsUnmarked_mixed, planned, same, generation, after, hdry, hreal,
    (hsame planned same generation after hdry hreal).2⟩

end Bindery
