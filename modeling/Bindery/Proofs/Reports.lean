import Bindery.Proofs.Changes
import Bindery.Proofs.Run

/-!
# What is reported

Renewing the headers of a library and applying its edits succeeds exactly if the folders can be entered and
the revisions can be made. What is then reported can be read off the checkout before it: which headers
change, and for each file with blocks whether its text changes once its header was renewed.
-/

namespace Bindery

open Checkout Revision

variable {before after : Checkout} {mode : Mode}

/-- A folder is renewed exactly if it can be entered and every file below it has a header. -/
theorem Header.renewFolder_eq_ok_iff_performed {folder : Path} {copyright : String}
    {extensions : List String} {changed : List Path}
    (hnodup : ((renewals before folder copyright extensions).map Revision.location).Nodup) :
    (renewFolder folder copyright extensions mode).run before = .ok changed after ↔
      before.folderAt folder = .ok folder.location
        ∧ Performed mode (renewals before folder copyright extensions) before after
        ∧ changed = (filesBelow before folder folder.location extensions).filter fun path =>
          (renewal (comment copyright) path).changeAfter before [] = .written := by
  rw [renewFolder_eq_ok_iff, renewFiles_eq_map, Work.map_reviseEach_eq_ok_iff hnodup, List.filter_map,
    List.map_map, ← renewals]
  simp [Function.comp_def]

namespace Generation

variable {interface : Interface} {root : Path} {copyright : String} {finish : Finisher}

/-- The paths below the root of the files that revisions change. -/
def changedPaths (checkout : Checkout) (root : Path) (revisions : List Revision) : List Path :=
  (revisions.filter fun revision => revision.changeAfter checkout [] = .written).map fun revision =>
    Path.relativeTo root revision.path

theorem changedPaths_append (checkout : Checkout) (root : Path) (first second : List Revision) :
    changedPaths checkout root (first ++ second) =
      changedPaths checkout root first ++ changedPaths checkout root second := by
  rw [changedPaths, List.filter_append, List.map_append, ← changedPaths, ← changedPaths]

theorem changedPaths_renewals (checkout : Checkout) (root folder : Path) (copyright : String) :
    changedPaths checkout root (Header.renewals checkout folder copyright headerExtensions) =
      ((Header.filesBelow checkout folder folder.location headerExtensions).filter fun path =>
        (Header.renewal (Header.comment copyright) path).changeAfter checkout [] = .written).map
          (Path.relativeTo root) := by
  rw [changedPaths, Header.renewals, List.filter_map, List.map_map]
  rfl

theorem changedPaths_congr {revisions : List Revision}
    (h : ∀ revision ∈ revisions, revision.changeAfter after [] = revision.changeAfter before []) :
    changedPaths after root revisions = changedPaths before root revisions := by
  unfold changedPaths
  congr 1
  apply List.filter_congr
  intro revision hrevision
  rw [h revision hrevision]

/-- Headers are renewed exactly if the folders can be entered and every file in them has a header. -/
theorem renewHeaders_eq_ok_iff {folders : List String} {changed : List Path}
    (hnodup : ((headerRevisions before root copyright folders).map Revision.location).Nodup) :
    (renewHeaders root copyright mode folders).run before = .ok changed after ↔
      Entered before root folders
        ∧ Performed mode (headerRevisions before root copyright folders) before after
        ∧ changed = changedPaths before root (headerRevisions before root copyright folders) := by
  induction folders generalizing before changed with
  | nil =>
      have hentered : Entered before root [] := by simp [Entered]
      have hnone : headerRevisions before root copyright [] = [] := rfl
      rw [hnone, Performed.nil_iff, renewHeaders, Work.pure_eq_ok_iff, and_comm, eq_comm (a := changed)]
      exact (and_iff_right hentered).symm
  | cons folder rest ih =>
      let first := Header.renewals before (root.join folder) copyright headerExtensions
      let others := headerRevisions before root copyright rest
      have hsplit : headerRevisions before root copyright (folder :: rest) = first ++ others :=
        List.flatMap_cons
      rw [hsplit] at hnodup ⊢
      obtain ⟨hfirst, hothers, -⟩ := List.nodup_append.mp (List.map_append ▸ hnodup)
      -- the headers of the first folder do not matter to the other folders
      have hlater {middle : Checkout} {others' : List Path} (h : Performed mode first before middle) :
          (renewHeaders root copyright mode rest).run middle = .ok others' after ↔
            Entered before root rest ∧ Performed mode others middle after
              ∧ others' = changedPaths before root others := by
        have hsame : headerRevisions middle root copyright rest = others :=
          headerRevisions_of_sameTree h.sameTree rest
        rw [ih (hsame ▸ hothers), hsame, changedPaths_congr fun _ hmem => h.changeAfter_of_mem hnodup hmem]
        simp only [Entered, h.sameTree.folderAt]
      rw [changedPaths_append, changedPaths_renewals, Performed.append_iff, renewHeaders]
      constructor
      · intro h
        obtain ⟨_, middle, hfolder, h⟩ := Work.bind_eq_ok_iff.mp h
        obtain ⟨_, last, hrest, h⟩ := Work.bind_eq_ok_iff.mp h
        obtain ⟨rfl, rfl⟩ := Work.pure_eq_ok_iff.mp h
        obtain ⟨henter, hhead, rfl⟩ := (Header.renewFolder_eq_ok_iff_performed hfirst).mp hfolder
        obtain ⟨hentered, htail, rfl⟩ := (hlater hhead).mp hrest
        exact ⟨List.forall_mem_cons.mpr ⟨henter, hentered⟩, ⟨middle, hhead, htail⟩, rfl⟩
      · rintro ⟨hentered, ⟨middle, hhead, htail⟩, rfl⟩
        obtain ⟨henter, hentered⟩ := List.forall_mem_cons.mp hentered
        have hfolder := (Header.renewFolder_eq_ok_iff_performed hfirst).mpr ⟨henter, hhead, rfl⟩
        have hrest := (hlater hhead).mpr ⟨hentered, htail, rfl⟩
        apply Work.bind_eq_ok_iff.mpr
        refine ⟨_, middle, hfolder, Work.bind_eq_ok_iff.mpr ⟨_, after, hrest, rfl⟩⟩

/-- Edits of different files are applied exactly if their revisions can be made. -/
theorem applyEdits_eq_ok_iff {groups : List FileEdits} {reports : List FileReport}
    (hnodup : ((groups.map (FileEdits.revision root finish)).map Revision.location).Nodup) :
    (applyEdits root finish mode groups).run before = .ok reports after ↔
      Performed mode (groups.map (FileEdits.revision root finish)) before after
        ∧ reports = groups.map fun group => ⟨group.path, group.blocks.map Prod.fst,
          (group.revision root finish).changeAfter before []⟩ := by
  rw [applyEdits_eq_map, Work.map_reviseEach_eq_ok_iff hnodup, List.map_map]
  rfl

end Generation

section Target

open Generation

variable {interface : Interface} {root : Path} {target : Target} {edits : List Edit}

/-- What is reported for a target when its headers and then some edits are brought to a checkout. -/
def Target.reportOn (checkout : Checkout) (interface : Interface) (root : Path) (mode : Mode)
    (edits : List Edit) (target : Target) : TargetReport :=
  { name := target.name
    headers := changedPaths checkout root
      (headerRevisions checkout root interface.copyright target.emitter.headerFolders)
    files := (FileEdits.ofEdits edits).map fun group =>
      ⟨group.path, group.blocks.map Prod.fst, (group.revision root Finisher.identity).changeAfter checkout
        (mode.seen (headerRevisions checkout root interface.copyright target.emitter.headerFolders))⟩ }

/-- A target is brought up to date exactly if the folders with its headers can be entered and its
revisions can be made. -/
theorem Generation.applyTarget_eq_ok_iff {report : TargetReport}
    (hedits : ((editRevisions root Finisher.identity edits).map Revision.location).Nodup) :
    (applyTarget interface root Finisher.identity mode target.emitter edits).run before =
        .ok report after ↔
      Entered before root target.emitter.headerFolders
        ∧ Performed mode (headerRevisions before root interface.copyright target.emitter.headerFolders
          ++ editRevisions root Finisher.identity edits) before after
        ∧ report = target.reportOn before interface root mode edits := by
  let renewals := headerRevisions before root interface.copyright target.emitter.headerFolders
  have hnodup : (renewals.map Revision.location).Nodup := Target.nodup_locations_headerRevisions
  -- the edits find the texts that the headers leave
  have hfiles {middle : Checkout} (h : Performed mode renewals before middle) :
      (target.reportOn before interface root mode edits).files =
        (FileEdits.ofEdits edits).map fun group => ⟨group.path, group.blocks.map Prod.fst,
          (group.revision root Finisher.identity).changeAfter middle []⟩ := by
    apply List.map_congr_left
    intro group _
    rw [h.changeAfter_eq, List.append_nil]
  rw [Performed.append_iff, applyTarget]
  constructor
  · intro h
    obtain ⟨_, middle, hheaders, h⟩ := Work.bind_eq_ok_iff.mp h
    obtain ⟨_, last, hgroups, h⟩ := Work.bind_eq_ok_iff.mp h
    obtain ⟨rfl, rfl⟩ := Work.pure_eq_ok_iff.mp h
    obtain ⟨hentered, hrenewed, rfl⟩ := (renewHeaders_eq_ok_iff hnodup).mp hheaders
    obtain ⟨hedited, rfl⟩ := (applyEdits_eq_ok_iff hedits).mp hgroups
    rw [← hfiles hrenewed]
    exact ⟨hentered, ⟨middle, hrenewed, hedited⟩, rfl⟩
  · rintro ⟨hentered, ⟨middle, hrenewed, hedited⟩, rfl⟩
    have hheaders := (renewHeaders_eq_ok_iff hnodup).mpr ⟨hentered, hrenewed, rfl⟩
    have hgroups := (applyEdits_eq_ok_iff hedits).mpr ⟨hedited, hfiles hrenewed⟩
    apply Work.bind_eq_ok_iff.mpr
    exact ⟨_, middle, hheaders, Work.bind_eq_ok_iff.mpr ⟨_, after, hgroups, rfl⟩⟩

end Target

end Bindery
