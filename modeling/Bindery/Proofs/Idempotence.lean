import Bindery.Proofs.Isolation
import Bindery.Proofs.Sources

/-!
# Idempotence

A run leaves a checkout on which each of its revisions is settled: the header is the comment that it would
be given, and the blocks hold the lines that they would be given. A second run yields the same edits, so it
finds nothing to do.
-/

namespace Bindery

open Checkout Generation

namespace Generation

variable {before after : Checkout} {interface : Interface} {root : Path} {targets : List Target}
  {target : Target} {location : Location}

/-- The comment at the start of a text is the one that holds the copyright text. -/
def HasHeader (copyright text : String) : Prop :=
  (Header.comment copyright).toList ++ Header.closing <+: text.toList

theorem hasHeader_of_spliceAll {copyright text final : String} {path : Path}
    {blocks : List (Nat × List String)} (hbegin : ¬ beginMarker <:+: copyright.toList)
    (hlines : ∀ block ∈ blocks, ∀ line ∈ block.2, Block.Unmarked line.toList)
    (htext : HasHeader copyright text) (h : Block.spliceAll path text blocks = .ok final) :
    HasHeader copyright final := by
  obtain ⟨-, hfinal⟩ := (Block.spliceAll_eq_ok_iff hlines).mp h
  rw [HasHeader, hfinal]
  refine (Layout.wellFormed_ofText _).prefix_setBodies ?_
    (Header.not_infix_comment_append_closing hbegin)
  rw [Layout.text_ofText]
  exact htext

section Settled

variable
  (hemit : ∀ target ∈ targets, target.emitter.emit interface ⟨before, root⟩ =
    .ok (target.edits interface ⟨before, root⟩))
  (hunmarked : ∀ target ∈ targets, target.Unmarked interface ⟨before, root⟩)
  (hnodup : targets.Nodup)
  (hrevised : Revised (targets.flatMap (Target.revisions before interface root)) before after)
include hemit hunmarked hnodup hrevised

/-- The blocks of a file hold the lines that they would be given again. -/
theorem settled_of_mem_editRevisions (hmem : target ∈ targets) {revision : Revision}
    (hrevision : revision ∈ editRevisions root Finisher.identity
      (target.edits interface ⟨before, root⟩)) :
    revision.Settled after := by
  obtain ⟨text, htext⟩ := hrevised.exists_text
    (List.mem_flatMap.mpr ⟨target, hmem, List.mem_append_right _ hrevision⟩)
  have hholds := (Target.owns_of_mem_editRevisions (hemit target hmem) hrevision).holds
  obtain ⟨renewed, final, -, hfinal, hafter⟩ := exists_steps hemit hnodup hmem hholds hrevised htext
  rw [Revision.textAt_of_mem hrevision
    (Target.nodup_locations_editRevisions (hemit target hmem))] at hfinal
  obtain ⟨group, hgroup, rfl⟩ := List.mem_map.mp hrevision
  have hchange (text : String) : (group.revision root Finisher.identity).change text =
      Block.spliceAll (root.join group.path.text) text group.blocks :=
    Work.finished_identity _ _ _
  have hlines := (hunmarked target hmem).blocks (hemit target hmem) hgroup
  refine ⟨final, hafter, ?_⟩
  rw [hchange] at hfinal ⊢
  exact Block.spliceAll_of_spliceAll_eq_ok hlines hfinal

/-- The header of a file is the one that it would be given again. -/
theorem settled_of_mem_headerRevisions (hbegin : ¬ beginMarker <:+: interface.copyright.toList)
    (hclosing : ¬ Header.closing <:+: interface.copyright.toList) (hmem : target ∈ targets)
    {revision : Revision}
    (hrevision : revision ∈ headerRevisions before root interface.copyright
      target.emitter.headerFolders) :
    revision.Settled after := by
  obtain ⟨text, htext⟩ := hrevised.exists_text
    (List.mem_flatMap.mpr ⟨target, hmem, List.mem_append_left _ hrevision⟩)
  have hmaintains : target.MaintainsHeader root revision.location :=
    (Target.mem_locations_headerRevisions_iff.mp (List.mem_map_of_mem hrevision)).2
  obtain ⟨renewed, final, hstep, hfinal, hafter⟩ :=
    exists_steps hemit hnodup hmem hmaintains.holds hrevised htext
  have hrenewed : HasHeader interface.copyright renewed := by
    rcases hstep with ⟨-, hnew⟩ | ⟨hnot, -⟩
    · exact Header.prefix_of_renew?_eq_some hnew
    · exact absurd hmaintains hnot
  -- if the target also has blocks in the file, splicing them keeps the comment
  have hheader : HasHeader interface.copyright final := by
    by_cases howns : target.Owns root revision.location
    · obtain ⟨file, hfile, hlocation⟩ := howns
      rw [hlocation, Target.textAt_editRevisions (hemit target hmem) hfile] at hfinal
      have hlines := (hunmarked target hmem).blocksAt (hemit target hmem) ⟨file⟩
      exact hasHeader_of_spliceAll hbegin hlines hrenewed hfinal
    · rw [Target.textAt_editRevisions_of_not_owns (hemit target hmem) howns] at hfinal
      rwa [← Except.ok.inj hfinal]
  obtain ⟨path, rfl⟩ := Target.exists_renewal_of_mem_headerRevisions hrevision
  refine ⟨final, hafter, Header.renewal_change_eq_ok_iff.mpr ?_⟩
  exact Header.renew?_eq_self hclosing hheader

/-- A revision is settled once the revisions of its targets have been made. -/
theorem settled_of_mem_revisions (hbegin : ¬ beginMarker <:+: interface.copyright.toList)
    (hclosing : ¬ Header.closing <:+: interface.copyright.toList) (hmem : target ∈ targets)
    {revision : Revision} (hrevision : revision ∈ target.revisions before interface root) :
    revision.Settled after := by
  rcases List.mem_append.mp hrevision with hheader | hedit
  · exact settled_of_mem_headerRevisions hemit hunmarked hnodup hrevised hbegin hclosing hmem hheader
  · exact settled_of_mem_editRevisions hemit hunmarked hnodup hrevised hmem hedit

end Settled

theorem render_congr
    (h : ∀ target ∈ targets, target.emitter.emit interface ⟨after, root⟩ =
      target.emitter.emit interface ⟨before, root⟩) :
    render (targets.map Target.emitter) interface ⟨after, root⟩ =
      render (targets.map Target.emitter) interface ⟨before, root⟩ := by
  unfold render
  congr 1
  funext
  apply mapM_congr_of_mem
  intro emitter hemitter
  obtain ⟨target, htarget, rfl⟩ := List.mem_map.mp hemitter
  rw [h target htarget]

/-- Nothing is counted in a report of targets of which nothing changed. -/
theorem changed_eq_zero {generation : Generation}
    (h : ∀ report ∈ generation.targets, TargetReport.Idle report) : generation.changed = 0 := by
  refine List.sum_eq_zero_iff_forall_eq_nat.mpr fun count hcount => ?_
  obtain ⟨report, hreport, rfl⟩ := List.mem_map.mp hcount
  obtain ⟨hheaders, hfiles⟩ := h report hreport
  rw [TargetReport.changed, hheaders, List.length_nil, Nat.zero_add, List.countP_eq_zero]
  intro file hfile
  rw [hfiles file hfile]
  decide

end Generation

namespace Request

variable {before after : Checkout} {interface : Interface} {launch : Formatter.Launcher}
  {request : Request} {generation : Generation}

/-- A second run with the same arguments succeeds, leaves the checkout as it is and reports no change,
when neither a rendered line nor the copyright text holds a marker, the copyright text does not end the
comment that holds it, and the same defaults are found in the mock library. -/
theorem run_idempotent (hmode : request.mode = .write) (hformatter : request.formatter? = none)
    (hunmarked : ∀ target ∈ Target.select request.targets,
      target.Unmarked interface ⟨before, request.root⟩)
    (hcopyright : Block.Unmarked interface.copyright.toList)
    (hclosing : ¬ Header.closing <:+: interface.copyright.toList)
    (hdefaults : SameDefaults interface request.root before after)
    (hrun : (request.run launch interface).run before = .ok generation after) :
    ∃ again, (request.run launch interface).run after = .ok again after
      ∧ again.changed = 0
      ∧ ∀ report ∈ again.targets,
        report.headers = [] ∧ ∀ file ∈ report.files, file.change = .unchanged := by
  obtain ⟨htargets, hrevised⟩ := revised_of_run_eq_ok hformatter hmode hrun
  have hemit := fun target htarget => (htargets target htarget).1
  have hnodup := Target.nodup_select request.targets
  obtain ⟨rendered, reports, hrender, -, -⟩ := (run_eq_ok_iff hformatter).mp hrun
  obtain ⟨-, -, rfl⟩ := render_eq_ok_iff.mp hrender
  have hrender' : render ((Target.select request.targets).map Target.emitter) interface
      ⟨after, request.root⟩ = .ok ((Target.select request.targets).map fun target =>
        (target.emitter, target.edits interface ⟨before, request.root⟩)) := by
    rw [render_congr fun target htarget => emit_eq hemit hrevised hdefaults htarget, hrender]
  have hentered : ∀ entry ∈ (Target.select request.targets).map fun target =>
      (target.emitter, target.edits interface ⟨before, request.root⟩),
      Entered after request.root entry.1.headerFolders := by
    intro entry hentry folder hfolder
    obtain ⟨target, htarget, rfl⟩ := List.mem_map.mp hentry
    rw [hrevised.sameTree.folderAt]
    exact (htargets target htarget).2 folder hfolder
  have hsettled : ∀ revision ∈ revisions after interface request.root Finisher.identity
      ((Target.select request.targets).map fun target =>
        (target.emitter, target.edits interface ⟨before, request.root⟩)), revision.Settled after := by
    intro revision hrevision
    -- both runs find the same files, so the second has the revisions of the first
    rw [revisions_of_sameTree hrevised.sameTree, revisions, List.flatMap_map] at hrevision
    obtain ⟨target, htarget, hmem⟩ := List.mem_flatMap.mp hrevision
    exact settled_of_mem_revisions hemit hunmarked hnodup hrevised hcopyright.1 hclosing htarget hmem
  obtain ⟨again, hagain, hidle⟩ := applyTargets_of_settled hentered hsettled
  exact ⟨⟨interface.version, request.mode, again⟩,
    (run_eq_ok_iff hformatter).mpr ⟨_, again, hrender', hagain, rfl⟩, changed_eq_zero hidle, hidle⟩

end Request

namespace Sample

/-- The default that is written by hand is found in a mock library before and after a run. -/
theorem sameDefaults_mocked {generation : Generation} {after : Checkout}
    (hrun : (mockRequest.run launch callable).run mocked = .ok generation after) :
    SameDefaults callable mockRequest.root mocked after := by
  obtain ⟨-, hrevised⟩ := Request.revised_of_run_eq_ok rfl rfl hrun
  have hheaders : headerRevisions mocked mockRequest.root callable.copyright Target.mock.emitter.headerFolders =
      mockHeaders.map (Header.renewal (Header.comment callable.copyright)) := headerRevisions_mock rfl _
  rw [select_mockRequest, List.flatMap_singleton, Target.revisions, hheaders] at hrevised
  have hbefore : ∀ old, mocked.content? (mockRequest.root.join MockLibrary.defaultsFile).location =
      some (.text old) → ∀ function ∈ callable.functions, function.hasDefault old := by
    intro old hold
    obtain rfl := Content.text.inj (Option.some.inj hold)
    decide +kernel
  have hafter : ∀ new ∈ Revision.textAfter? mocked
      (mockHeaders.map (Header.renewal (Header.comment callable.copyright))
        ++ editRevisions mockRequest.root Finisher.identity
          (Target.mock.edits callable ⟨mocked, mockRequest.root⟩))
      (mockRequest.root.join MockLibrary.defaultsFile).location,
      ∀ function ∈ callable.functions, function.hasDefault new := by
    decide +kernel
  intro old new hold hnew function hfunction
  obtain ⟨final, hfinal, hcontent⟩ := hrevised.textAt_eq_ok hold
  obtain rfl : new = final := Content.text.inj (Option.some.inj (hnew.symm.trans hcontent))
  rw [hbefore old hold function hfunction]
  exact hafter new (Revision.textAfter?_eq_some_iff.mpr ⟨old, hold, hfinal⟩) function hfunction

end Sample

/-- A second run over a mock library finds its headers renewed and the same default, and has nothing to do. -/
theorem Request.run_idempotent_mock : ∃ generation after again,
    (Sample.mockRequest.run Sample.launch Sample.callable).run Sample.mocked = .ok generation after
      ∧ (∀ target ∈ Target.select Sample.mockRequest.targets,
        target.Unmarked Sample.callable ⟨Sample.mocked, Sample.mockRequest.root⟩)
      ∧ Block.Unmarked Sample.callable.copyright.toList
      ∧ ¬ Header.closing <:+: Sample.callable.copyright.toList
      ∧ SameDefaults Sample.callable Sample.mockRequest.root Sample.mocked after
      ∧ (Sample.mockRequest.run Sample.launch Sample.callable).run after = .ok again after
      ∧ again.changed = 0 := by
  obtain ⟨generation, after, hrun⟩ := Sample.exists_run_mocked
  have hcopyright : Block.Unmarked Sample.callable.copyright.toList := by decide
  have hclosing : ¬ Header.closing <:+: Sample.callable.copyright.toList := by decide
  have hdefaults := Sample.sameDefaults_mocked hrun
  obtain ⟨again, hagain, hchanged, -⟩ :=
    Request.run_idempotent rfl rfl Sample.unmarked_mocked hcopyright hclosing hdefaults hrun
  exact ⟨generation, after, again, hrun, Sample.unmarked_mocked, hcopyright, hclosing, hdefaults, hagain, hchanged⟩

end Bindery
