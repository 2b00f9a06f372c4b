import Bindery.Proofs.Isolation
import Bindery.Proofs.Locality

/-!
# Independence

Each target only reads and revises files in its own folder. So bringing several targets up to date in one
run has the same effect as a run for each of them, one after the other in any order.
-/

namespace Bindery

open Checkout Generation

variable {before middle after : Checkout} {interface : Interface} {root : Path} {mode : Mode}
  {targets : List Target} {location : Location}

section Order

variable {order : List Target} (hnodup : targets.Nodup) (horder : order.Perm targets)
  (hemit : ∀ target ∈ targets, target.Emits before interface root)
include hnodup horder hemit

/-- What the revisions of targets make of a text does not depend on the order of the targets. -/
theorem Revision.textAt_of_perm (text : String) :
    textAt location (order.flatMap (Target.revisions before interface root)) text =
      textAt location (targets.flatMap (Target.revisions before interface root)) text := by
  have hnodup' : order.Nodup := horder.nodup_iff.mpr hnodup
  have hemit' : ∀ target ∈ order, target.Emits before interface root :=
    fun target htarget => hemit target (horder.mem_iff.mp htarget)
  by_cases hholds : ∃ target ∈ targets, target.Holds root location
  · obtain ⟨target, htarget, hholds⟩ := hholds
    rw [textAt_flatMap_revisions hemit' hnodup' (horder.mem_iff.mpr htarget) hholds,
      textAt_flatMap_revisions hemit hnodup htarget hholds]
  · have hne : ∀ targets' ⊆ targets, ∀ revision ∈ targets'.flatMap (Target.revisions before interface root),
        revision.location ≠ location := by
      rintro targets' hsubset revision hrevision rfl
      obtain ⟨target, htarget, hmem⟩ := List.mem_flatMap.mp hrevision
      exact hholds ⟨target, hsubset htarget, holds_of_mem_revisions (hemit target (hsubset htarget)) hmem⟩
    rw [textAt_of_forall_ne (hne order horder.subset), textAt_of_forall_ne (hne targets (List.Subset.refl _))]

/-- The revisions of targets can be made in any order of the targets, with the same effect. -/
theorem Performed.of_perm
    (h : Performed mode (targets.flatMap (Target.revisions before interface root)) before after) :
    Performed mode (order.flatMap (Target.revisions before interface root)) before after := by
  have hmem {revision : Revision}
      (hrevision : revision ∈ order.flatMap (Target.revisions before interface root)) :
      revision ∈ targets.flatMap (Target.revisions before interface root) := by
    obtain ⟨target, htarget, hin⟩ := List.mem_flatMap.mp hrevision
    exact List.mem_flatMap.mpr ⟨target, horder.mem_iff.mp htarget, hin⟩
  have htexts (location : Location) :
      Revision.textAfter? before (order.flatMap (Target.revisions before interface root)) location =
        Revision.textAfter? before (targets.flatMap (Target.revisions before interface root)) location := by
    unfold Revision.textAfter?
    simp only [Revision.textAt_of_perm hnodup horder hemit]
  cases mode with
  | dryRun => exact ⟨fun revision hrevision => h.1 revision (hmem hrevision), h.2⟩
  | write =>
      exact Revised.of_textAfter? h (fun revision hrevision => ⟨revision, hmem hrevision, rfl⟩) htexts

end Order

theorem Target.select_singleton (target : Target) : select [target] = [target] := by
  cases target <;> decide

namespace Request

variable {launch : Formatter.Launcher} {request : Request} {generation : Generation}

/-- The request for one target alone. -/
def only (request : Request) (target : Target) : Request := { request with targets := [target] }

/-- A run for one target that was not touched does to it what its revisions do. -/
theorem run_only_eq_ok {target : Target} (hformatter : request.formatter? = none)
    (hflags : interface.checkFlags = .ok ()) (hemit : target.Emits before interface request.root)
    (hentered : Entered before request.root target.emitter.headerFolders)
    (huntouched : target.Untouched request.root before middle)
    (hperformed : Performed request.mode (target.revisions before interface request.root) middle after) :
    ((request.only target).run launch interface).run middle =
      .ok ⟨interface.version, request.mode,
        [target.reportAt before interface request.root request.mode]⟩ after := by
  have hnone : (request.only target).formatter? = none := hformatter
  apply (run_eq_ok_iff_performed hnone).mpr
  have hselect : Target.select (request.only target).targets = [target] := target.select_singleton
  rw [hselect]
  simp only [List.forall_mem_singleton, List.flatMap_singleton, List.map_singleton]
  refine ⟨hflags, huntouched.emits_iff.mpr hemit, huntouched.entered_iff.mpr hentered, ?_, ?_⟩
  · change Performed request.mode (target.revisions middle interface request.root) middle after
    rwa [huntouched.revisions_eq]
  · change _ = Generation.mk interface.version request.mode
      [target.reportAt middle interface request.root request.mode]
    rw [huntouched.reportAt_eq hemit]

/-- Runs for one target after the other do what their revisions do. -/
theorem run_each_eq_ok {done : List Target} (hformatter : request.formatter? = none)
    (hflags : interface.checkFlags = .ok ()) (hnodup : (done ++ targets).Nodup)
    (hemit : ∀ target ∈ done ++ targets, target.Emits before interface request.root)
    (hentered : ∀ target ∈ targets, Entered before request.root target.emitter.headerFolders)
    (hdone : Performed request.mode (done.flatMap (Target.revisions before interface request.root))
      before middle)
    (htargets : Performed request.mode (targets.flatMap (Target.revisions before interface request.root))
      middle after) :
    (targets.mapM fun target => (request.only target).run launch interface).run middle =
      .ok (targets.map fun target => ⟨interface.version, request.mode,
        [target.reportAt before interface request.root request.mode]⟩) after := by
  induction targets generalizing done middle with
  | nil =>
      obtain rfl := Performed.nil_iff.mp htargets
      rfl
  | cons target rest ih =>
      have hmem : target ∈ done ++ target :: rest := List.mem_append_right _ List.mem_cons_self
      have huntouched : target.Untouched request.root before middle := hdone.untouched_next hnodup hemit
      have hmove : done ++ target :: rest = (done ++ [target]) ++ rest := by simp
      obtain ⟨henter, hentered⟩ := List.forall_mem_cons.mp hentered
      obtain ⟨next, hfirst, hothers⟩ := Performed.append_iff.mp (List.flatMap_cons ▸ htargets)
      have hrun : ((request.only target).run launch interface).run middle = .ok _ next :=
        run_only_eq_ok hformatter hflags (hemit target hmem) henter huntouched hfirst
      have hruns := ih (hmove ▸ hnodup) (hmove ▸ hemit) hentered (hdone.next hfirst) hothers
      rw [List.mapM_cons]
      apply Work.bind_eq_ok_iff.mpr
      exact ⟨_, next, hrun, Work.bind_eq_ok_iff.mpr ⟨_, after, hruns, rfl⟩⟩

/-- A run over several targets leaves the same checkout as a run for each of them in any order, and the
same is reported for each target. -/
theorem run_each_target (hformatter : request.formatter? = none)
    (hrun : (request.run launch interface).run before = .ok generation after)
    {order : List Target} (horder : order.Perm (Target.select request.targets)) :
    ∃ report : Target → TargetReport,
      generation = ⟨interface.version, request.mode, (Target.select request.targets).map report⟩
        ∧ (order.mapM fun target => (request.only target).run launch interface).run before =
          .ok (order.map fun target => ⟨interface.version, request.mode, [report target]⟩) after := by
  obtain ⟨hflags, hemit, hentered, hperformed, rfl⟩ := (run_eq_ok_iff_performed hformatter).mp hrun
  have hnodup := Target.nodup_select request.targets
  have hnodup' : (([] : List Target) ++ order).Nodup := horder.nodup_iff.mpr hnodup
  have hin {target : Target} (htarget : target ∈ order) : target ∈ Target.select request.targets :=
    horder.mem_iff.mp htarget
  refine ⟨Target.reportAt before interface request.root request.mode, rfl, ?_⟩
  exact run_each_eq_ok hformatter hflags hnodup'
    (fun target htarget => hemit target (hin htarget))
    (fun target htarget => hentered target (hin htarget)) (Performed.nil_iff.mpr rfl)
    (hperformed.of_perm hnodup horder hemit)

end Request

namespace Sample

/-- A mock library of which headers and blocks are out of date, and bindings for Python. -/
def mixed : Checkout where
  files := mockFiles ++ checkout.files
  folders := []
  isTree := ⟨by decide +kernel, by decide +kernel, by decide +kernel, by simp, by decide +kernel⟩

/-- A request for the mock library and the bindings for Python. -/
def mixedRequest : Request := { request with targets := [.python, .mock] }

theorem headerRevisions_mixed :
    headerRevisions mixed mixedRequest.root Sample.interface.copyright Target.mock.emitter.headerFolders =
      mockHeaders.map (Header.renewal (Header.comment Sample.interface.copyright)) := by
  apply headerRevisions_mock
  rfl

theorem emits_mixed : ∀ target ∈ Target.select mixedRequest.targets,
    target.Emits mixed Sample.interface mixedRequest.root := by
  have hok : ∀ target ∈ Target.select mixedRequest.targets,
      (target.emitter.emit Sample.interface ⟨mixed, mixedRequest.root⟩).isOk := by
    decide
  exact fun target htarget => Target.emits_of_isOk (hok target htarget)

theorem commentsUnmarked_mixed : mixed.CommentsUnmarked :=
  Checkout.commentsUnmarked_of_all (by decide +kernel)

theorem applies_revisions_mixed : ∀ target ∈ Target.select mixedRequest.targets,
    ∀ revision ∈ target.revisions mixed Sample.interface mixedRequest.root, revision.Applies mixed := by
  have hselect : Target.select mixedRequest.targets = [.mock, .python] := by decide
  have hmock : ∀ location ∈ mockFiles.map Prod.fst, mixed.content? location = mocked.content? location := by
    decide
  have hpython : ∀ entry ∈ pythonBlocks, mixed.content? entry.1 = checkout.content? entry.1 := by
    simp only [pythonBlocks, List.forall_mem_cons]
    exact ⟨rfl, rfl, rfl, rfl, rfl, rfl, by simp⟩
  have hlines : ∀ edit ∈ Target.mock.edits Sample.interface ⟨mixed, mixedRequest.root⟩, ∀ line ∈ edit.lines,
      Block.Unmarked line.toList := by
    decide +kernel
  have hblocks : (FileEdits.ofEdits (Target.mock.edits Sample.interface ⟨mixed, request.root⟩)).map
      (fun group => ((request.root.join group.path.text).location, group.blocks.map Prod.fst)) =
        mockBlocks := by
    decide +kernel
  have hheaders : headerRevisions mixed mixedRequest.root Sample.interface.copyright
      Target.python.emitter.headerFolders = [] := rfl
  rw [hselect]
  refine List.forall_mem_cons.mpr ⟨?_, List.forall_mem_singleton.mpr ?_⟩
  · exact applies_revisions_mock rfl (emits_mixed .mock (by decide)) (Target.unmarked_of_edits hlines) hmock
      hblocks
  · rw [Target.revisions, hheaders, List.nil_append]
    exact applies_editRevisions_python (emits_mixed .python (by decide)) rfl hpython

theorem exists_run_mixed :
    ∃ generation after, (mixedRequest.run launch Sample.interface).run mixed = .ok generation after := by
  have hentered : ∀ target ∈ Target.select mixedRequest.targets,
      Entered mixed mixedRequest.root target.emitter.headerFolders := by
    unfold Entered
    decide
  exact Request.exists_run_of_applies rfl rfl (by decide) commentsUnmarked_mixed rfl emits_mixed hentered
    applies_revisions_mixed

end Sample

/-- The sample is brought up to date for one target after the other, the last of the joint run first. -/
theorem Request.run_each_target_mixed : ∃ generation after,
    (Sample.mixedRequest.run Sample.launch Sample.interface).run Sample.mixed = .ok generation after
      ∧ ([Target.python, Target.mock].Perm (Target.select Sample.mixedRequest.targets))
      ∧ ∃ report : Target → TargetReport,
        generation = ⟨Sample.interface.version, .write, [report .mock, report .python]⟩
          ∧ ([Target.python, Target.mock].mapM fun target =>
              (Sample.mixedRequest.only target).run Sample.launch Sample.interface).run Sample.mixed =
            .ok [⟨Sample.interface.version, .write, [report .python]⟩,
              ⟨Sample.interface.version, .write, [report .mock]⟩] after := by
  obtain ⟨generation, after, hrun⟩ := Sample.exists_run_mixed
  have horder : [Target.python, Target.mock].Perm (Target.select Sample.mixedRequest.targets) := by decide
  obtain ⟨report, hreport, hruns⟩ := Request.run_each_target rfl hrun horder
  exact ⟨generation, after, hrun, horder, report, hreport, hruns⟩

end Bindery
