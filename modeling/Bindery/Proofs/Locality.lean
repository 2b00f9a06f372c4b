import Bindery.Proofs.Reports
import Bindery.Proofs.Sources

/-!
# Locality

What a target reads and what it revises lies in its own folder. So what it does, and what is reported for
it, is not affected by revisions of the files of other targets.
-/

namespace Bindery

open Checkout Generation

variable {before middle after : Checkout} {interface : Interface} {root : Path} {mode : Mode}
  {target : Target} {targets : List Target}

namespace Target

/-- Nothing has changed in the folder of a target, nor which files and folders there are. -/
structure Untouched (root : Path) (target : Target) (before after : Checkout) : Prop where
  sameTree : SameTree before after
  content : ∀ location, target.Holds root location →
    after.content? location = before.content? location

/-- The emitter of a target yields its edits for a checkout. -/
def Emits (checkout : Checkout) (interface : Interface) (root : Path) (target : Target) : Prop :=
  target.emitter.emit interface ⟨checkout, root⟩ = .ok (target.edits interface ⟨checkout, root⟩)

theorem emits_of_isOk (h : (target.emitter.emit interface ⟨before, root⟩).isOk) :
    target.Emits before interface root := by
  unfold Emits edits
  cases hemit : target.emitter.emit interface ⟨before, root⟩ with
  | ok edits => rfl
  | error error =>
      rw [hemit] at h
      cases h

/-- What is reported for a target that is brought up to date with a checkout. -/
def reportAt (checkout : Checkout) (interface : Interface) (root : Path) (mode : Mode)
    (target : Target) : TargetReport :=
  target.reportOn checkout interface root mode (target.edits interface ⟨checkout, root⟩)

namespace Untouched

theorem emit_eq (h : target.Untouched root before after) :
    target.emitter.emit interface ⟨after, root⟩ = target.emitter.emit interface ⟨before, root⟩ := by
  cases target with
  | core =>
      have hschemas : CoreLibrary.schemas ⟨after, root⟩ = CoreLibrary.schemas ⟨before, root⟩ := by
        apply CoreLibrary.schemas_congr h.sameTree
        intro name hname _
        exact h.content _ ⟨["src", "schemas", name], CoreLibrary.location_schema hname⟩
      change (CoreLibrary.schemas ⟨after, root⟩ >>= fun schemas =>
        Sheet.allEdits (CoreLibrary.sheets interface schemas)) = _
      rw [hschemas]
      rfl
  | mock =>
      have howns : Target.mock.Owns root (root.join MockLibrary.defaultsFile).location :=
        ⟨MockLibrary.defaultsFile, by decide, rfl⟩
      change (Sources.read ⟨after, root⟩ MockLibrary.defaultsFile >>= fun defaults =>
        Sheet.allEdits (MockLibrary.sheets interface defaults)) = _
      rw [Sources.read_eq h.sameTree (h.content _ howns.holds)]
      rfl
  | cpp =>
      change (Sources.fileNames ⟨after, root⟩ CppBindings.headerFolder ".h" >>= fun headers =>
        Sheet.allEdits (CppBindings.sheets interface headers)) = _
      rw [Sources.fileNames_eq h.sameTree]
      rfl
  | dotnet => rfl
  | python => rfl

theorem edits_eq (h : target.Untouched root before after) :
    target.edits interface ⟨after, root⟩ = target.edits interface ⟨before, root⟩ := by
  rw [edits, h.emit_eq, edits]

theorem emits_iff (h : target.Untouched root before after) :
    target.Emits after interface root ↔ target.Emits before interface root := by
  rw [Emits, h.emit_eq, h.edits_eq, Emits]

theorem revisions_eq (h : target.Untouched root before after) :
    target.revisions after interface root = target.revisions before interface root := by
  rw [revisions, headerRevisions_of_sameTree h.sameTree, h.edits_eq, revisions]

theorem entered_iff (h : target.Untouched root before after) {folders : List String} :
    Entered after root folders ↔ Entered before root folders := by
  simp only [Entered, h.sameTree.folderAt]

/-- The same is reported for edits of the files of a target. -/
theorem reportOn_eq (h : target.Untouched root before after) (hemit : target.Emits before interface root) :
    target.reportOn after interface root mode (target.edits interface ⟨before, root⟩) =
      target.reportAt before interface root mode := by
  have hchange {earlier : List Revision} {revision : Revision}
      (hmem : revision ∈ target.revisions before interface root) :
      revision.changeAfter after earlier = revision.changeAfter before earlier :=
    Revision.changeAfter_congr
      (Revision.textAfter?_congr (h.content _ (holds_of_mem_revisions hemit hmem)))
  unfold reportAt reportOn
  rw [headerRevisions_of_sameTree h.sameTree]
  simp only [TargetReport.mk.injEq, true_and]
  constructor
  · apply changedPaths_congr
    intro revision hrevision
    exact hchange (List.mem_append_left _ hrevision)
  · apply List.map_congr_left
    intro group hgroup
    have hrevision : group.revision root Finisher.identity ∈ target.revisions before interface root :=
      List.mem_append_right _ (List.mem_map_of_mem hgroup)
    rw [hchange hrevision]

theorem reportAt_eq (h : target.Untouched root before after) (hemit : target.Emits before interface root) :
    target.reportAt after interface root mode = target.reportAt before interface root mode := by
  rw [reportAt, h.edits_eq, h.reportOn_eq hemit]

end Untouched

end Target

/-- Revisions of targets do not touch a file outside their folders. -/
theorem Performed.content?_of_forall_not_holds {location : Location}
    (h : Performed mode (targets.flatMap (Target.revisions before interface root)) before after)
    (hemit : ∀ other ∈ targets, other.Emits before interface root)
    (hnone : ∀ other ∈ targets, ¬ other.Holds root location) :
    after.content? location = before.content? location := by
  apply h.content?_of_forall_ne
  rintro revision hrevision rfl
  obtain ⟨other, hother, hmem⟩ := List.mem_flatMap.mp hrevision
  exact hnone other hother (holds_of_mem_revisions (hemit other hother) hmem)

/-- Revisions of other targets do not touch a target. -/
theorem Performed.untouched
    (h : Performed mode (targets.flatMap (Target.revisions before interface root)) before after)
    (hemit : ∀ other ∈ targets, other.Emits before interface root) (hnot : target ∉ targets) :
    target.Untouched root before after := by
  refine ⟨h.sameTree, fun location hholds => h.content?_of_forall_not_holds hemit ?_⟩
  intro other hother hholds'
  exact hnot (Target.eq_of_holds hholds hholds' ▸ hother)

section Next

variable {done rest : List Target}
  (hdone : Performed mode (done.flatMap (Target.revisions before interface root)) before middle)
include hdone

/-- The revisions of some targets do not touch the one behind them. -/
theorem Performed.untouched_next (hnodup : (done ++ target :: rest).Nodup)
    (hemit : ∀ other ∈ done ++ target :: rest, other.Emits before interface root) :
    target.Untouched root before middle := by
  apply hdone.untouched fun other hother => hemit other (List.mem_append_left _ hother)
  intro hmem
  exact (List.nodup_append.mp hnodup).2.2 target hmem target List.mem_cons_self rfl

/-- A target that has been revised belongs to those in front of the others. -/
theorem Performed.next (h : Performed mode (target.revisions before interface root) middle after) :
    Performed mode ((done ++ [target]).flatMap (Target.revisions before interface root)) before after := by
  rw [List.flatMap_append, List.flatMap_singleton]
  exact Performed.append_iff.mpr ⟨middle, hdone, h⟩

end Next

namespace Generation

/-- With its edits, a target that was not touched is brought up to date as it would have been before. -/
theorem applyTarget_of_untouched {report : TargetReport} (h : target.Untouched root before middle)
    (hemit : target.Emits before interface root) :
    (applyTarget interface root Finisher.identity mode target.emitter
        (target.edits interface ⟨before, root⟩)).run middle = .ok report after ↔
      Entered before root target.emitter.headerFolders
        ∧ Performed mode (target.revisions before interface root) middle after
        ∧ report = target.reportAt before interface root mode := by
  rw [applyTarget_eq_ok_iff (Target.nodup_locations_editRevisions hemit), h.entered_iff,
    headerRevisions_of_sameTree h.sameTree, h.reportOn_eq hemit]
  rfl

/-- Behind other targets, targets are brought up to date as they would have been before. -/
theorem applyTargets_eq_ok_iff {done : List Target} {reports : List TargetReport}
    (hnodup : (done ++ targets).Nodup) (hemit : ∀ target ∈ done ++ targets, target.Emits before interface root)
    (hdone : Performed mode (done.flatMap (Target.revisions before interface root)) before middle) :
    (applyTargets interface root Finisher.identity mode (targets.map fun target =>
        (target.emitter, target.edits interface ⟨before, root⟩))).run middle = .ok reports after ↔
      (∀ target ∈ targets, Entered before root target.emitter.headerFolders)
        ∧ Performed mode (targets.flatMap (Target.revisions before interface root)) middle after
        ∧ reports = targets.map (Target.reportAt before interface root mode) := by
  induction targets generalizing done middle reports with
  | nil =>
      rw [List.map_nil, applyTargets, Work.pure_eq_ok_iff, List.flatMap_nil, Performed.nil_iff, and_comm,
        eq_comm (a := reports)]
      simp
  | cons target rest ih =>
      have hmem : target ∈ done ++ target :: rest := List.mem_append_right _ List.mem_cons_self
      have huntouched : target.Untouched root before middle := hdone.untouched_next hnodup hemit
      have hmove : done ++ target :: rest = (done ++ [target]) ++ rest := by simp
      rw [List.map_cons, applyTargets, List.flatMap_cons, Performed.append_iff, List.forall_mem_cons]
      constructor
      · intro h
        obtain ⟨_, next, hfirst, h⟩ := Work.bind_eq_ok_iff.mp h
        obtain ⟨_, last, hothers, h⟩ := Work.bind_eq_ok_iff.mp h
        obtain ⟨rfl, rfl⟩ := Work.pure_eq_ok_iff.mp h
        obtain ⟨henter, hhead, rfl⟩ := (applyTarget_of_untouched huntouched (hemit target hmem)).mp hfirst
        obtain ⟨hentered, htail, rfl⟩ := (ih (hmove ▸ hnodup) (hmove ▸ hemit) (hdone.next hhead)).mp hothers
        exact ⟨⟨henter, hentered⟩, ⟨next, hhead, htail⟩, rfl⟩
      · rintro ⟨⟨henter, hentered⟩, ⟨next, hhead, htail⟩, rfl⟩
        have hfirst := (applyTarget_of_untouched huntouched (hemit target hmem)).mpr ⟨henter, hhead, rfl⟩
        have hothers := (ih (hmove ▸ hnodup) (hmove ▸ hemit) (hdone.next hhead)).mpr ⟨hentered, htail, rfl⟩
        apply Work.bind_eq_ok_iff.mpr
        exact ⟨_, next, hfirst, Work.bind_eq_ok_iff.mpr ⟨_, after, hothers, rfl⟩⟩

end Generation

namespace Generation

section Texts

variable (hnodup : targets.Nodup) (hemit : ∀ target ∈ targets, target.Emits before interface root)
include hnodup hemit

/-- What several targets make of the text of a file is what the one makes of it in whose folder it lies. -/
theorem textAfter?_flatMap_revisions {location : Location} (hmem : target ∈ targets)
    (hholds : target.Holds root location) :
    Revision.textAfter? before (targets.flatMap (Target.revisions before interface root)) location =
      Revision.textAfter? before (target.revisions before interface root) location := by
  unfold Revision.textAfter?
  simp only [textAt_flatMap_revisions hemit hnodup hmem hholds]

/-- The revisions of targets can be made exactly if those of each target can. -/
theorem exists_revised_iff :
    (∃ after, Revised (targets.flatMap (Target.revisions before interface root)) before after) ↔
      ∀ target ∈ targets, ∀ revision ∈ target.revisions before interface root, ∃ new,
        Revision.textAfter? before (target.revisions before interface root) revision.location = some new := by
  have htexts {target : Target} (htarget : target ∈ targets) {revision : Revision}
      (hrevision : revision ∈ target.revisions before interface root) :=
    textAfter?_flatMap_revisions hnodup hemit htarget
      (holds_of_mem_revisions (hemit target htarget) hrevision)
  rw [Revised.exists_iff]
  constructor
  · intro h target htarget revision hrevision
    rw [← htexts htarget hrevision]
    exact h revision (List.mem_flatMap.mpr ⟨target, htarget, hrevision⟩)
  · intro h revision hrevision
    obtain ⟨target, htarget, hmem⟩ := List.mem_flatMap.mp hrevision
    rw [htexts htarget hmem]
    exact h target htarget revision hmem

end Texts

end Generation

/-- A run without formatter succeeds exactly if the flag sets have values, the emitters yield edits, the
folders with headers can be entered, and the revisions of the targets can be made. -/
theorem Request.run_eq_ok_iff_performed {launch : Formatter.Launcher} {request : Request}
    {generation : Generation} (hformatter : request.formatter? = none) :
    (request.run launch interface).run before = .ok generation after ↔
      interface.checkFlags = .ok ()
        ∧ (∀ target ∈ Target.select request.targets, target.Emits before interface request.root)
        ∧ (∀ target ∈ Target.select request.targets,
          Entered before request.root target.emitter.headerFolders)
        ∧ Performed request.mode
          ((Target.select request.targets).flatMap (Target.revisions before interface request.root)) before after
        ∧ generation = ⟨interface.version, request.mode,
          (Target.select request.targets).map (Target.reportAt before interface request.root request.mode)⟩ := by
  have hnodup := Target.nodup_select request.targets
  have hstart : Performed request.mode (([] : List Target).flatMap
      (Target.revisions before interface request.root)) before before := Performed.nil_iff.mpr rfl
  rw [run_eq_ok_iff hformatter]
  constructor
  · rintro ⟨rendered, reports, hrender, happly, rfl⟩
    obtain ⟨hflags, hemit, rfl⟩ := render_eq_ok_iff.mp hrender
    obtain ⟨hentered, hperformed, rfl⟩ := (applyTargets_eq_ok_iff hnodup hemit hstart).mp happly
    exact ⟨hflags, hemit, hentered, hperformed, rfl⟩
  · rintro ⟨hflags, hemit, hentered, hperformed, rfl⟩
    exact ⟨_, _, render_eq_ok_iff.mpr ⟨hflags, hemit, rfl⟩,
      (applyTargets_eq_ok_iff hnodup hemit hstart).mpr ⟨hentered, hperformed, rfl⟩, rfl⟩

end Bindery
