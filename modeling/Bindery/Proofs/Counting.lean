import Bindery.Proofs.Independence
import Mathlib.Data.Finset.Card
import Mathlib.Data.Finset.Lattice.Basic

/-!
# Counted changes

A run counts the files of which the header changed and the files of which the blocks changed. A file of
which both changed is counted twice. So the count is never less than the number of files that hold
something else than before, and exceeds it exactly if a file was changed twice.
-/

namespace Bindery

open Checkout Generation

variable {before after : Checkout} {interface : Interface} {root : Path} {target other : Target}
  {targets : List Target} {location : Location}

section Finset

variable {α : Type} [DecidableEq α] {all first second : Finset α}

/-- What is in one of two sets but not in both makes up a third one exactly if no element is in both. -/
theorem card_le_add_and_eq_iff_disjoint (hall : all ⊆ first ∪ second)
    (hfirst : first \ second ⊆ all) (hsecond : second \ first ⊆ all) :
    all.card ≤ first.card + second.card
      ∧ (first.card + second.card = all.card ↔ Disjoint first second) := by
  have hunion : (first ∪ second).card + (first ∩ second).card = first.card + second.card :=
    Finset.card_union_add_card_inter first second
  have hle : all.card ≤ (first ∪ second).card := Finset.card_le_card hall
  refine ⟨by omega, ?_⟩
  constructor
  · intro heq
    rw [Finset.disjoint_iff_inter_eq_empty, ← Finset.card_eq_zero]
    omega
  · intro hdisjoint
    have hwhole : all = first ∪ second := by
      apply Finset.Subset.antisymm hall
      apply Finset.union_subset
      · rwa [Finset.sdiff_eq_self_of_disjoint hdisjoint] at hfirst
      · rwa [Finset.sdiff_eq_self_of_disjoint hdisjoint.symm] at hsecond
    rw [hwhole, Finset.card_union_of_disjoint hdisjoint]

end Finset

namespace Checkout

/-- The files that hold something else in one checkout than in another, those that only one has included. -/
def differing (before after : Checkout) : Finset Location :=
  (before.files.map Prod.fst ++ after.files.map Prod.fst).toFinset.filter fun location =>
    after.content? location ≠ before.content? location

theorem mem_differing_iff :
    location ∈ differing before after ↔ after.content? location ≠ before.content? location := by
  rw [differing, Finset.mem_filter, and_iff_right_iff_imp, List.mem_toFinset, List.mem_append]
  intro hne
  by_contra hnone
  obtain ⟨hbefore, hafter⟩ := not_or.mp hnone
  rw [content?_eq_none_iff.mpr hbefore, content?_eq_none_iff.mpr hafter] at hne
  exact hne rfl

end Checkout

/-- What a file holds has changed exactly if its text has. -/
theorem Revised.content?_ne_iff {revisions : List Revision} (h : Revised revisions before after) :
    after.content? location ≠ before.content? location ↔
      Revision.textAfter? before revisions location ≠ Revision.textAfter? before [] location := by
  have hafter := h.textAfter?_eq [] location
  rw [List.append_nil] at hafter
  rw [← hafter]
  by_cases htext : ∃ text, before.content? location = some (.text text)
  · obtain ⟨text, htext⟩ := htext
    obtain ⟨new, -, hnew⟩ := h.textAt_eq_ok htext
    rw [Revision.textAfter?_of_content? hnew, Revision.textAfter?_of_content? htext, hnew, htext, ne_eq,
      ne_eq, Option.some.injEq, Content.text.injEq]
    change _ ↔ ¬ some new = some text
    rw [Option.some.injEq]
  · have hkept : after.content? location = before.content? location :=
      h.content?_of_forall_ne_text fun text heq => htext ⟨text, heq⟩
    rw [Revision.textAfter?_congr hkept, hkept]
    simp

namespace Target

/-- The files of which the header changes when a target is brought up to date. -/
def renewedFiles (checkout : Checkout) (interface : Interface) (root : Path) (target : Target) :
    List Location :=
  ((headerRevisions checkout root interface.copyright target.emitter.headerFolders).filter fun revision =>
    revision.changeAfter checkout [] = .written).map Revision.location

/-- The files of which the blocks change when a target is brought up to date. -/
def resplicedFiles (checkout : Checkout) (interface : Interface) (root : Path) (target : Target) :
    List Location :=
  ((editRevisions root Finisher.identity (target.edits interface ⟨checkout, root⟩)).filter fun revision =>
    revision.changeAfter checkout (headerRevisions checkout root interface.copyright
      target.emitter.headerFolders) = .written).map Revision.location

theorem changed_reportAt :
    (target.reportAt before interface root .write).changed =
      (target.renewedFiles before interface root).length
        + (target.resplicedFiles before interface root).length := by
  rw [TargetReport.changed, reportAt, reportOn, renewedFiles, resplicedFiles, changedPaths]
  simp only [List.length_map, editRevisions, List.filter_map, List.countP_eq_length_filter]
  rfl

theorem mem_renewedFiles_iff :
    location ∈ target.renewedFiles before interface root ↔
      Revision.textAfter? before (headerRevisions before root interface.copyright
        target.emitter.headerFolders) location ≠ Revision.textAfter? before [] location :=
  Revision.mem_locations_written_iff nodup_locations_headerRevisions

theorem nodup_renewedFiles : (target.renewedFiles before interface root).Nodup :=
  (List.filter_sublist.map Revision.location).nodup nodup_locations_headerRevisions

theorem holds_of_mem_renewedFiles (h : location ∈ target.renewedFiles before interface root) :
    target.Holds root location := by
  obtain ⟨revision, hrevision, rfl⟩ := List.mem_map.mp h
  have hmem := List.mem_map_of_mem (f := Revision.location) (List.mem_of_mem_filter hrevision)
  exact (mem_locations_headerRevisions_iff.mp hmem).2.holds

section Emits

variable (hemit : target.Emits before interface root)
include hemit

theorem mem_resplicedFiles_iff :
    location ∈ target.resplicedFiles before interface root ↔
      Revision.textAfter? before (target.revisions before interface root) location ≠
        Revision.textAfter? before (headerRevisions before root interface.copyright
          target.emitter.headerFolders) location :=
  Revision.mem_locations_written_iff (nodup_locations_editRevisions hemit)

theorem nodup_resplicedFiles : (target.resplicedFiles before interface root).Nodup :=
  (List.filter_sublist.map Revision.location).nodup (nodup_locations_editRevisions hemit)

theorem owns_of_mem_resplicedFiles (h : location ∈ target.resplicedFiles before interface root) :
    target.Owns root location := by
  obtain ⟨revision, hrevision, rfl⟩ := List.mem_map.mp h
  exact owns_of_mem_editRevisions hemit (List.mem_of_mem_filter hrevision)

end Emits

theorem HeaderStep.unique {copyright text renewed renewed' : String}
    (h : target.HeaderStep root copyright location text renewed)
    (h' : target.HeaderStep root copyright location text renewed') : renewed' = renewed := by
  rcases h with ⟨hmaintains, hrenewed⟩ | ⟨hnot, rfl⟩ <;>
    rcases h' with ⟨hmaintains', hrenewed'⟩ | ⟨hnot', rfl⟩
  · exact Option.some.inj (hrenewed'.symm.trans hrenewed)
  · exact absurd hmaintains hnot'
  · exact absurd hmaintains' hnot
  · rfl

/-- The lists of files of different targets have no file in common. -/
theorem nodup_flatMap_of_holds {files : Target → List Location} (hnodup : targets.Nodup)
    (hdistinct : ∀ target ∈ targets, (files target).Nodup)
    (hfiles : ∀ target ∈ targets, ∀ location ∈ files target, target.Holds root location) :
    (targets.flatMap files).Nodup := by
  rw [List.nodup_flatMap]
  refine ⟨hdistinct, hnodup.imp_of_mem ?_⟩
  intro target other htarget hother hne location hlocation hlocation'
  exact hne (eq_of_holds (hfiles target htarget location hlocation) (hfiles other hother location hlocation'))

/-- A file in the folder of a target is in lists of files of targets exactly if it is in that of the
target. -/
theorem mem_flatMap_iff_of_holds {files : Target → List Location}
    (hfiles : ∀ target ∈ targets, ∀ location ∈ files target, target.Holds root location)
    (hmem : target ∈ targets) (hholds : target.Holds root location) :
    location ∈ targets.flatMap files ↔ location ∈ files target := by
  rw [List.mem_flatMap]
  constructor
  · rintro ⟨other, hother, hin⟩
    rwa [eq_of_holds hholds (hfiles other hother location hin)]
  · exact fun hin => ⟨target, hmem, hin⟩

end Target

namespace Generation

/-- The files of which headers or blocks of several targets change. -/
theorem changed_eq_length_add_length {version : Version} :
    changed ⟨version, .write, targets.map (Target.reportAt before interface root .write)⟩ =
      (targets.flatMap (Target.renewedFiles before interface root)).length
        + (targets.flatMap (Target.resplicedFiles before interface root)).length := by
  unfold changed
  induction targets with
  | nil => rfl
  | cons target rest ih =>
      simp only [List.map_cons, List.sum_cons, List.flatMap_cons, List.length_append] at ih ⊢
      rw [ih, Target.changed_reportAt]
      omega

/-- The files of which several targets change the header. -/
def renewedFiles (checkout : Checkout) (interface : Interface) (root : Path) (targets : List Target) :
    List Location :=
  targets.flatMap (Target.renewedFiles checkout interface root)

/-- The files of which several targets change the blocks. -/
def resplicedFiles (checkout : Checkout) (interface : Interface) (root : Path) (targets : List Target) :
    List Location :=
  targets.flatMap (Target.resplicedFiles checkout interface root)

theorem mem_renewedFiles_iff (hmem : target ∈ targets) (hholds : target.Holds root location) :
    location ∈ renewedFiles before interface root targets ↔
      location ∈ target.renewedFiles before interface root :=
  Target.mem_flatMap_iff_of_holds (fun _ _ _ => Target.holds_of_mem_renewedFiles) hmem hholds

section Emits

variable (hemit : ∀ target ∈ targets, target.Emits before interface root)
include hemit

theorem holds_of_mem_resplicedFiles : ∀ target ∈ targets,
    ∀ location ∈ target.resplicedFiles before interface root, target.Holds root location :=
  fun target htarget _ hmem => (Target.owns_of_mem_resplicedFiles (hemit target htarget) hmem).holds

theorem mem_resplicedFiles_iff (hmem : target ∈ targets) (hholds : target.Holds root location) :
    location ∈ resplicedFiles before interface root targets ↔
      location ∈ target.resplicedFiles before interface root :=
  Target.mem_flatMap_iff_of_holds (holds_of_mem_resplicedFiles hemit) hmem hholds

theorem disjoint_files_iff :
    Disjoint (renewedFiles before interface root targets).toFinset
        (resplicedFiles before interface root targets).toFinset ↔
      ∀ target ∈ targets, ∀ location ∈ target.renewedFiles before interface root,
        location ∉ target.resplicedFiles before interface root := by
  rw [Finset.disjoint_left]
  simp only [List.mem_toFinset]
  constructor
  · intro h target htarget location hin hin'
    exact h (List.mem_flatMap.mpr ⟨target, htarget, hin⟩) (List.mem_flatMap.mpr ⟨target, htarget, hin'⟩)
  · intro h location hmem hmem'
    obtain ⟨target, htarget, hin⟩ := List.mem_flatMap.mp hmem
    rw [mem_resplicedFiles_iff hemit htarget (Target.holds_of_mem_renewedFiles hin)] at hmem'
    exact h target htarget location hin hmem'

variable (hnodup : targets.Nodup)
include hnodup

/-- A run counts the files of which headers change and those of which blocks change. -/
theorem changed_eq_card_add_card (version : Version) :
    changed ⟨version, .write, targets.map (Target.reportAt before interface root .write)⟩ =
      (renewedFiles before interface root targets).toFinset.card
        + (resplicedFiles before interface root targets).toFinset.card := by
  have hrenewed : (renewedFiles before interface root targets).Nodup :=
    Target.nodup_flatMap_of_holds hnodup (fun _ _ => Target.nodup_renewedFiles)
      fun _ _ _ => Target.holds_of_mem_renewedFiles
  have hrespliced : (resplicedFiles before interface root targets).Nodup :=
    Target.nodup_flatMap_of_holds hnodup
      (fun target htarget => Target.nodup_resplicedFiles (hemit target htarget))
      (holds_of_mem_resplicedFiles hemit)
  rw [List.toFinset_card_of_nodup hrenewed, List.toFinset_card_of_nodup hrespliced]
  exact changed_eq_length_add_length

variable (hrevised : Revised (targets.flatMap (Target.revisions before interface root)) before after)
include hrevised

/-- In the folder of a target, a file holds something else if the revisions of the target change its text. -/
theorem mem_differing_iff_of_holds (hmem : target ∈ targets) (hholds : target.Holds root location) :
    location ∈ differing before after ↔
      Revision.textAfter? before (target.revisions before interface root) location ≠
        Revision.textAfter? before [] location := by
  rw [mem_differing_iff, hrevised.content?_ne_iff, textAfter?_flatMap_revisions hnodup hemit hmem hholds]

omit hnodup in
theorem exists_holds_of_mem_differing (h : location ∈ differing before after) :
    ∃ target ∈ targets, target.Holds root location := by
  by_contra hnone
  apply mem_differing_iff.mp h
  apply hrevised.content?_of_forall_ne
  rintro revision hrevision rfl
  obtain ⟨target, htarget, hin⟩ := List.mem_flatMap.mp hrevision
  exact hnone ⟨target, htarget, holds_of_mem_revisions (hemit target htarget) hin⟩

/-- What a run counts is at least the number of files that hold something else, and is this number exactly
if no file has both its header and its blocks changed. -/
theorem card_differing_le_changed (version : Version) :
    (differing before after).card ≤
        changed ⟨version, .write, targets.map (Target.reportAt before interface root .write)⟩
      ∧ (changed ⟨version, .write, targets.map (Target.reportAt before interface root .write)⟩ =
          (differing before after).card ↔
        ∀ target ∈ targets, ∀ location ∈ target.renewedFiles before interface root,
          location ∉ target.resplicedFiles before interface root) := by
  rw [changed_eq_card_add_card hemit hnodup, ← disjoint_files_iff hemit]
  -- the text of a file before, with the new header, and after decide in which of the sets it is
  apply card_le_add_and_eq_iff_disjoint
  · intro location hmem
    obtain ⟨target, htarget, hholds⟩ := exists_holds_of_mem_differing hemit hrevised hmem
    rw [mem_differing_iff_of_holds hemit hnodup hrevised htarget hholds] at hmem
    rw [Finset.mem_union, List.mem_toFinset, List.mem_toFinset, mem_renewedFiles_iff htarget hholds,
      mem_resplicedFiles_iff hemit htarget hholds, Target.mem_renewedFiles_iff,
      Target.mem_resplicedFiles_iff (hemit target htarget)]
    by_contra hneither
    obtain ⟨hheader, hblocks⟩ := not_or.mp hneither
    exact hmem ((not_not.mp hblocks).trans (not_not.mp hheader))
  · intro location hmem
    rw [Finset.mem_sdiff, List.mem_toFinset, List.mem_toFinset] at hmem
    obtain ⟨target, htarget, hin⟩ := List.mem_flatMap.mp hmem.1
    have hholds := Target.holds_of_mem_renewedFiles hin
    rw [mem_resplicedFiles_iff hemit htarget hholds, Target.mem_resplicedFiles_iff (hemit target htarget),
      not_not] at hmem
    rw [mem_differing_iff_of_holds hemit hnodup hrevised htarget hholds, hmem.2]
    exact Target.mem_renewedFiles_iff.mp hin
  · intro location hmem
    rw [Finset.mem_sdiff, List.mem_toFinset, List.mem_toFinset] at hmem
    obtain ⟨target, htarget, hin⟩ := List.mem_flatMap.mp hmem.1
    have hholds := holds_of_mem_resplicedFiles hemit target htarget location hin
    rw [mem_renewedFiles_iff htarget hholds, Target.mem_renewedFiles_iff, not_not] at hmem
    rw [mem_differing_iff_of_holds hemit hnodup hrevised htarget hholds, ← hmem.2]
    exact (Target.mem_resplicedFiles_iff (hemit target htarget)).mp hin

/-- The texts of a file in the folder of a target: the one with the new header, and the last one. -/
theorem exists_textAfter? (hmem : target ∈ targets) (hholds : target.Holds root location) {text : String}
    (htext : before.content? location = some (.text text)) :
    ∃ renewed final, target.HeaderStep root interface.copyright location text renewed
      ∧ after.content? location = some (.text final)
      ∧ (location ∈ target.renewedFiles before interface root ↔ renewed ≠ text)
      ∧ (location ∈ target.resplicedFiles before interface root ↔ final ≠ renewed) := by
  obtain ⟨final, hfinal, hcontent⟩ := hrevised.textAt_eq_ok htext
  rw [textAt_flatMap_revisions hemit hnodup hmem hholds] at hfinal
  have hlast := Revision.textAfter?_eq_some_iff.mpr ⟨text, htext, hfinal⟩
  rw [Target.revisions, Revision.textAt_append, except_bind_eq_ok_iff] at hfinal
  obtain ⟨renewed, hrenewed, -⟩ := hfinal
  have hmiddle := Revision.textAfter?_eq_some_iff.mpr ⟨text, htext, hrenewed⟩
  have hfirst : Revision.textAfter? before [] location = some text :=
    Revision.textAfter?_eq_some_iff.mpr ⟨text, htext, rfl⟩
  refine ⟨renewed, final, Target.headerStep_of_textAt_eq_ok htext hrenewed, hcontent, ?_, ?_⟩
  · rw [Target.mem_renewedFiles_iff, hmiddle, hfirst, ne_eq, Option.some.injEq]
  · rw [Target.mem_resplicedFiles_iff (hemit target hmem), hlast, hmiddle, ne_eq, Option.some.injEq]

end Emits

end Generation

namespace Request

variable {launch : Formatter.Launcher} {request : Request} {generation : Generation}

/-- A run counts at least as many changes as there are files that hold something else than before. It counts
as many exactly if each file with blocks keeps its header or, once its header was renewed, its blocks. -/
theorem run_counts_changes (hmode : request.mode = .write) (hformatter : request.formatter? = none)
    (hrun : (request.run launch interface).run before = .ok generation after) :
    (differing before after).card ≤ generation.changed
      ∧ (generation.changed = (differing before after).card ↔
        ∀ target ∈ Target.select request.targets, ∀ file ∈ target.emitter.files, ∀ text renewed,
          before.content? (request.root.join file).location = some (.text text) →
          target.HeaderStep request.root interface.copyright (request.root.join file).location text renewed →
          renewed = text
            ∨ after.content? (request.root.join file).location = some (.text renewed)) := by
  obtain ⟨-, hemit, -, hrevised, rfl⟩ := (run_eq_ok_iff_performed hformatter).mp hrun
  rw [hmode] at hrevised ⊢
  have hnodup := Target.nodup_select request.targets
  have hbounds := card_differing_le_changed hemit hnodup hrevised interface.version
  refine ⟨hbounds.1, hbounds.2.trans ?_⟩
  constructor
  · intro hdisjoint target htarget file hfile text renewed htext hstep
    have howns : target.Owns request.root (request.root.join file).location := ⟨file, hfile, rfl⟩
    obtain ⟨renewed', final, hstep', hafter, hrenewed, hrespliced⟩ :=
      exists_textAfter? hemit hnodup hrevised htarget howns.holds htext
    obtain rfl := hstep.unique hstep'
    by_cases hsame : renewed' = text
    · exact Or.inl hsame
    · have hkept := hdisjoint target htarget _ (hrenewed.mpr hsame)
      rw [hrespliced, not_not] at hkept
      exact Or.inr (hkept ▸ hafter)
  · intro hfiles target htarget location hrenewed hrespliced
    obtain ⟨file, hfile, rfl⟩ := Target.owns_of_mem_resplicedFiles (hemit target htarget) hrespliced
    have hholds := Target.holds_of_mem_renewedFiles hrenewed
    obtain ⟨text, htext⟩ : ∃ text, before.content? (request.root.join file).location = some (.text text) := by
      obtain ⟨revision, hrevision, hlocation⟩ := List.mem_map.mp hrenewed
      rw [← hlocation]
      exact hrevised.exists_text (List.mem_flatMap.mpr
        ⟨target, htarget, List.mem_append_left _ (List.mem_of_mem_filter hrevision)⟩)
    obtain ⟨renewed, final, hstep, hafter, hheader, hblocks⟩ :=
      exists_textAfter? hemit hnodup hrevised htarget hholds htext
    rcases hfiles target htarget file hfile text renewed htext hstep with hsame | hkept
    · exact hheader.mp hrenewed hsame
    · rw [hafter, Option.some.injEq, Content.text.injEq] at hkept
      exact hblocks.mp hrespliced hkept

/-- Bindings for Python have no headers, so a run over them counts the files that hold something else. -/
theorem run_counts_changes_python : ∃ generation after,
    (Sample.request.run Sample.launch Sample.interface).run Sample.checkout = .ok generation after
      ∧ generation.changed = (differing Sample.checkout after).card := by
  obtain ⟨generation, after, hrun⟩ := Sample.exists_run
  refine ⟨generation, after, hrun, (run_counts_changes rfl rfl hrun).2.mpr ?_⟩
  intro target htarget file hfile text renewed htext hstep
  obtain rfl : target = .python := by
    have hselect : Target.select Sample.request.targets = [.python] := by decide
    rw [hselect] at htarget
    exact List.mem_singleton.mp htarget
  rcases hstep with ⟨⟨folder, hfolder, -⟩, -⟩ | ⟨-, hsame⟩
  · cases hfolder
  · exact Or.inl hsame

end Request

/-- The sample has a file of which both the header and the blocks change, so more changes are counted than
there are files that hold something else. -/
theorem Generation.changed_ne_card_differing : ∃ generation after,
    (Sample.mixedRequest.run Sample.launch Sample.interface).run Sample.mixed = .ok generation after
      ∧ generation.changed ≠ (differing Sample.mixed after).card := by
  obtain ⟨generation, after, hrun⟩ := Sample.exists_run_mixed
  refine ⟨generation, after, hrun, ?_⟩
  obtain ⟨-, hemit, -, hrevised, rfl⟩ := (Request.run_eq_ok_iff_performed rfl).mp hrun
  have hmock : Target.mock ∈ Target.select Sample.mixedRequest.targets := by decide
  let location : Location := ["yogi-core-mock", "include", "yogi_core_mock.h"]
  have hrenewed : location ∈ Target.mock.renewedFiles Sample.mixed Sample.interface
      Sample.mixedRequest.root := by
    rw [Target.mem_renewedFiles_iff, Sample.headerRevisions_mixed]
    decide +kernel
  have hrespliced : location ∈ Target.mock.resplicedFiles Sample.mixed Sample.interface
      Sample.mixedRequest.root := by
    rw [Target.mem_resplicedFiles_iff (hemit .mock hmock), Target.revisions, Sample.headerRevisions_mixed]
    decide +kernel
  intro hequal
  have hnodup := Target.nodup_select Sample.mixedRequest.targets
  exact (card_differing_le_changed hemit hnodup hrevised _).2.mp hequal .mock hmock location hrenewed hrespliced

end Bindery
