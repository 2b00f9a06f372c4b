import Bindery.Command.Run
import Bindery.Proofs.Applying
import Bindery.Proofs.Header
import Bindery.Proofs.Targets

/-!
# Runs as revisions

A run that succeeds amounts to a list of revisions that is known from the checkout before it: for each
target the headers in its folders and then its files with blocks. A run of which every revision is
settled changes nothing and reports nothing.
-/

namespace Bindery

open Checkout

/-- The revision that gives blocks of a file new lines. -/
def FileEdits.revision (root : Path) (finish : Finisher) (edits : FileEdits) : Revision where
  path := root.join edits.path.text
  change := Work.finished finish (root.join edits.path.text) edits.blocks

theorem FileEdits.location_revision (root : Path) (finish : Finisher) (edits : FileEdits) :
    (edits.revision root finish).location = (root.join edits.path.text).location := rfl

namespace Generation

variable {before after checkout : Checkout} {interface : Interface} {root : Path}
  {copyright : String} {finish : Finisher} {mode : Mode}

/-- The revisions that renew the headers in folders below the root. -/
def headerRevisions (checkout : Checkout) (root : Path) (copyright : String)
    (folders : List String) : List Revision :=
  folders.flatMap fun folder =>
    Header.renewals checkout (root.join folder) copyright headerExtensions

/-- The revisions that carry out edits. -/
def editRevisions (root : Path) (finish : Finisher) (edits : List Edit) : List Revision :=
  (FileEdits.ofEdits edits).map (FileEdits.revision root finish)

/-- The revisions of a run with the edits of several emitters. -/
def revisions (checkout : Checkout) (interface : Interface) (root : Path) (finish : Finisher)
    (rendered : List (Emitter × List Edit)) : List Revision :=
  rendered.flatMap fun (emitter, edits) =>
    headerRevisions checkout root interface.copyright emitter.headerFolders
      ++ editRevisions root finish edits

theorem headerRevisions_of_sameTree (h : SameTree before after) (folders : List String) :
    headerRevisions after root copyright folders = headerRevisions before root copyright folders := by
  unfold headerRevisions
  congr
  funext folder
  exact Header.renewals_of_sameTree h

theorem revisions_of_sameTree (h : SameTree before after) (rendered : List (Emitter × List Edit)) :
    revisions after interface root finish rendered =
      revisions before interface root finish rendered := by
  unfold revisions
  congr
  funext entry
  simp only [headerRevisions_of_sameTree h]

/-- The folders with headers can be entered. -/
def Entered (checkout : Checkout) (root : Path) (folders : List String) : Prop :=
  ∀ folder ∈ folders, checkout.folderAt (root.join folder) = .ok (root.join folder).location

theorem applyEdits_eq_map (root : Path) (finish : Finisher) (groups : List FileEdits) :
    applyEdits root finish mode groups =
      (fun results => results.map fun (group, change) =>
          ⟨group.path, group.blocks.map Prod.fst, change⟩) <$>
        Work.reviseEach (FileEdits.revision root finish) mode groups := by
  induction groups with
  | nil => rfl
  | cons group rest ih =>
      rw [applyEdits, ih, Work.reviseEach, map_bind]
      change Work.revise (group.revision root finish) mode >>= _ = _
      congr
      funext change
      rw [bind_map_left, map_bind]
      congr

theorem carriesOut_renewHeaders (root : Path) (copyright : String) (folders : List String)
    (before : Checkout) :
    Work.CarriesOut (renewHeaders root copyright .write folders)
      (headerRevisions before root copyright folders) before := by
  induction folders generalizing before with
  | nil => exact Work.carriesOut_pure [] before
  | cons folder rest ih =>
      have hfirst := Header.carriesOut_renewFolder (root.join folder) copyright headerExtensions before
      apply hfirst.bind
      intro changed middle hrevised
      have hrest := ih middle
      -- which headers are renewed is read off the checkout before the run
      rw [headerRevisions_of_sameTree hrevised.sameTree] at hrest
      exact hrest.map fun others => changed.map (Path.relativeTo root) ++ others

theorem carriesOut_applyEdits (root : Path) (finish : Finisher) (groups : List FileEdits)
    (before : Checkout) :
    Work.CarriesOut (applyEdits root finish .write groups) (groups.map (FileEdits.revision root finish))
      before := by
  rw [applyEdits_eq_map]
  exact (Work.carriesOut_reviseEach _ _ before).map _

theorem carriesOut_applyTarget (interface : Interface) (root : Path) (finish : Finisher)
    (emitter : Emitter) (edits : List Edit) (before : Checkout) :
    Work.CarriesOut (applyTarget interface root finish .write emitter edits)
      (headerRevisions before root interface.copyright emitter.headerFolders
        ++ editRevisions root finish edits) before := by
  apply (carriesOut_renewHeaders root interface.copyright emitter.headerFolders before).bind
  intro headers middle _
  exact (carriesOut_applyEdits root finish _ middle).map (TargetReport.mk emitter.name headers)

theorem entered_of_renewHeaders_eq_ok {folders : List String} {changed : List Path}
    (h : (renewHeaders root copyright .write folders).run before = .ok changed after) :
    Entered before root folders := by
  induction folders generalizing before changed with
  | nil => simp [Entered]
  | cons folder rest ih =>
      obtain ⟨first, middle, hfirst, h⟩ := Work.bind_eq_ok_iff.mp h
      obtain ⟨others, last, hothers, h⟩ := Work.bind_eq_ok_iff.mp h
      obtain ⟨-, rfl⟩ := Work.pure_eq_ok_iff.mp h
      have hrevised := (Header.carriesOut_renewFolder _ _ _ before).revised hfirst
      refine List.forall_mem_cons.mpr ⟨(Header.renewFolder_eq_ok_iff.mp hfirst).1, ?_⟩
      intro other hother
      rw [← hrevised.sameTree.folderAt]
      exact ih hothers other hother

/-- A run that succeeds carries out its revisions one after the other. -/
theorem revised_of_applyTargets_eq_ok {rendered : List (Emitter × List Edit)}
    {reports : List TargetReport}
    (h : (applyTargets interface root finish .write rendered).run before = .ok reports after) :
    Revised (revisions before interface root finish rendered) before after
      ∧ ∀ entry ∈ rendered, Entered before root entry.1.headerFolders := by
  induction rendered generalizing before reports with
  | nil =>
      obtain ⟨-, rfl⟩ := Work.pure_eq_ok_iff.mp h
      exact ⟨.nil before, by simp⟩
  | cons entry rest ih =>
      obtain ⟨emitter, edits⟩ := entry
      obtain ⟨report, middle, hfirst, h⟩ := Work.bind_eq_ok_iff.mp h
      obtain ⟨others, last, hothers, h⟩ := Work.bind_eq_ok_iff.mp h
      obtain ⟨-, rfl⟩ := Work.pure_eq_ok_iff.mp h
      have hhead := (carriesOut_applyTarget interface root finish emitter edits before).revised hfirst
      obtain ⟨headers, renewed, hheaders, -⟩ := Work.bind_eq_ok_iff.mp hfirst
      obtain ⟨hrest, hothers⟩ := ih hothers
      rw [revisions_of_sameTree hhead.sameTree] at hrest
      refine ⟨hhead.append hrest, List.forall_mem_cons.mpr ⟨entered_of_renewHeaders_eq_ok hheaders, ?_⟩⟩
      intro other hother folder hfolder
      rw [← hhead.sameTree.folderAt]
      exact hothers other hother folder hfolder

/-- A report of a target of which nothing changed. -/
def TargetReport.Idle (report : TargetReport) : Prop :=
  report.headers = [] ∧ ∀ file ∈ report.files, file.change = .unchanged

theorem renewHeaders_of_settled {folders : List String} (hentered : Entered checkout root folders)
    (h : ∀ revision ∈ headerRevisions checkout root copyright folders, revision.Settled checkout) :
    (renewHeaders root copyright mode folders).run checkout = .ok [] checkout := by
  induction folders with
  | nil => rfl
  | cons folder rest ih =>
      obtain ⟨hfolder, hrest⟩ := List.forall_mem_cons.mp hentered
      have hhead := fun revision hrevision => h revision (List.mem_append_left _ hrevision)
      have htail := fun revision hrevision => h revision (List.mem_append_right _ hrevision)
      refine Work.bind_eq_ok_iff.mpr ⟨[], checkout, Header.renewFolder_of_settled hfolder hhead, ?_⟩
      exact Work.bind_eq_ok_iff.mpr ⟨[], checkout, ih hrest htail, rfl⟩

theorem applyEdits_of_settled {groups : List FileEdits}
    (h : ∀ edits ∈ groups, (edits.revision root finish).Settled checkout) :
    ∃ reports, (applyEdits root finish mode groups).run checkout = .ok reports checkout
      ∧ ∀ report ∈ reports, report.change = .unchanged := by
  rw [applyEdits_eq_map]
  refine ⟨_, Work.map_eq_ok_iff.mpr ⟨_, Work.reviseEach_of_settled h mode, rfl⟩, ?_⟩
  simp

/-- A run of which every revision is settled changes nothing and says so. -/
theorem applyTargets_of_settled {rendered : List (Emitter × List Edit)}
    (hentered : ∀ entry ∈ rendered, Entered checkout root entry.1.headerFolders)
    (h : ∀ revision ∈ revisions checkout interface root finish rendered, revision.Settled checkout) :
    ∃ reports, (applyTargets interface root finish mode rendered).run checkout = .ok reports checkout
      ∧ ∀ report ∈ reports, TargetReport.Idle report := by
  induction rendered with
  | nil => exact ⟨[], rfl, by simp⟩
  | cons entry rest ih =>
      obtain ⟨emitter, edits⟩ := entry
      obtain ⟨hfirst, hothers⟩ := List.forall_mem_cons.mp hentered
      have hheaders : (renewHeaders root interface.copyright mode emitter.headerFolders).run checkout =
          .ok [] checkout :=
        renewHeaders_of_settled hfirst fun revision hrevision =>
          h revision (List.mem_append_left _ (List.mem_append_left _ hrevision))
      obtain ⟨files, hfiles, hunchanged⟩ : ∃ files,
          (applyEdits root finish mode (FileEdits.ofEdits edits)).run checkout = .ok files checkout
            ∧ ∀ file ∈ files, file.change = .unchanged :=
        applyEdits_of_settled fun group hgroup =>
          h _ (List.mem_append_left _ (List.mem_append_right _ (List.mem_map_of_mem hgroup)))
      obtain ⟨reports, hreports, hidle⟩ := ih hothers fun revision hrevision =>
        h revision (List.mem_append_right _ hrevision)
      have htarget : (applyTarget interface root finish mode emitter edits).run checkout =
          .ok ⟨emitter.name, [], files⟩ checkout := by
        refine Work.bind_eq_ok_iff.mpr ⟨[], checkout, hheaders, ?_⟩
        exact Work.bind_eq_ok_iff.mpr ⟨files, checkout, hfiles, rfl⟩
      refine ⟨⟨emitter.name, [], files⟩ :: reports, ?_, ?_⟩
      · refine Work.bind_eq_ok_iff.mpr ⟨_, checkout, htarget, ?_⟩
        exact Work.bind_eq_ok_iff.mpr ⟨reports, checkout, hreports, rfl⟩
      · exact List.forall_mem_cons.mpr ⟨⟨rfl, hunchanged⟩, hidle⟩

end Generation

end Bindery
