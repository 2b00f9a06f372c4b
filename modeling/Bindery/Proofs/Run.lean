import Bindery.Proofs.Generation
import Bindery.Proofs.Walk

/-!
# What a run does to a file

The files that a target revises lie in its folder, so at most one of the selected targets revises a file.
A file that it owns or whose header it maintains first has its header renewed and then its blocks
replaced; no other file is revised.
-/

namespace Bindery

open Checkout Generation

namespace Target

variable {target other : Target} {root : Path} {location : Location} {checkout : Checkout}
  {interface : Interface} {sources : Sources} {copyright text : String} {edits : List Edit}

/-- A location lies in the folder of a target. -/
def Holds (root : Path) (target : Target) (location : Location) : Prop :=
  ∃ rest, location = root.location ++ target.folder :: rest

/-- A location is that of a file with blocks of a target. -/
def Owns (root : Path) (target : Target) (location : Location) : Prop :=
  ∃ file ∈ target.emitter.files, location = (root.join file).location

/-- A location is that of a file of which a target renews the header, if there is one. -/
def MaintainsHeader (root : Path) (target : Target) (location : Location) : Prop :=
  ∃ folder ∈ target.emitter.headerFolders, ∃ between name,
    location = (root.join folder).location ++ between ++ [name]
      ∧ Path.hasExtension headerExtensions ⟨name⟩

theorem eq_of_holds (h : target.Holds root location) (h' : other.Holds root location) :
    target = other := by
  obtain ⟨rest, rfl⟩ := h
  obtain ⟨rest', heq⟩ := h'
  exact eq_of_folder_eq (List.cons.inj (List.append_cancel_left heq)).1

theorem Owns.holds (h : target.Owns root location) : target.Holds root location := by
  obtain ⟨file, hfile, rfl⟩ := h
  obtain ⟨rest, hrest⟩ := exists_names_eq hfile
  exact ⟨rest, by rw [location_of_mem_files hfile, hrest]⟩

theorem eq_folder_of_mem_headerFolders {folder : String}
    (h : folder ∈ target.emitter.headerFolders) : folder = target.folder := by
  rcases target.headerFolders_cases with hnone | hone
  · rw [hnone] at h
    cases h
  · rw [hone] at h
    exact List.mem_singleton.mp h

theorem MaintainsHeader.holds (h : target.MaintainsHeader root location) :
    target.Holds root location := by
  obtain ⟨folder, hfolder, between, name, rfl, -⟩ := h
  obtain rfl := eq_folder_of_mem_headerFolders hfolder
  exact ⟨between ++ [name], by simp [location_folder]⟩

/-- The headers that are renewed for a target are those of the files that are there. -/
theorem mem_locations_headerRevisions_iff :
    location ∈ (headerRevisions checkout root copyright target.emitter.headerFolders).map
        Revision.location ↔
      location ∈ checkout.files.map Prod.fst ∧ target.MaintainsHeader root location := by
  unfold MaintainsHeader
  rcases target.headerFolders_cases with hnone | hone
  · simp [hnone, headerRevisions]
  · have hlocations : (headerRevisions checkout root copyright [target.folder]).map Revision.location =
        (Header.filesBelow checkout (root.join target.folder) (root.join target.folder).location
          headerExtensions).map Path.location := by
      rw [headerRevisions, List.flatMap_singleton, Header.renewals, List.map_map]
      rfl
    have hfolder := target.location_folder root
    rw [hone, hlocations, Header.mem_locations_filesBelow_iff hfolder target.isFileName_folder]
    simp

theorem nodup_locations_headerRevisions :
    ((headerRevisions checkout root copyright target.emitter.headerFolders).map
      Revision.location).Nodup := by
  rcases target.headerFolders_cases with hnone | hone
  · rw [hnone]
    exact List.nodup_nil
  · have hnodup : ((Header.filesBelow checkout (root.join target.folder)
        (root.join target.folder).location headerExtensions).map Path.location).Nodup :=
      (Header.walk_filesBelow checkout (root.join target.folder) headerExtensions).nodup
    rw [hone, headerRevisions, List.flatMap_singleton, Header.renewals, List.map_map]
    exact hnodup

theorem exists_renewal_of_mem_headerRevisions {folders : List String} {revision : Revision}
    (h : revision ∈ headerRevisions checkout root copyright folders) :
    ∃ path, revision = Header.renewal (Header.comment copyright) path := by
  obtain ⟨folder, -, hrevision⟩ := List.mem_flatMap.mp h
  obtain ⟨path, -, rfl⟩ := List.mem_map.mp hrevision
  exact ⟨path, rfl⟩

/-- The text of a file after the header was renewed, if the target maintains it. -/
def HeaderStep (root : Path) (copyright : String) (target : Target) (location : Location)
    (text renewed : String) : Prop :=
  (target.MaintainsHeader root location
      ∧ Header.renew? (Header.comment copyright) text = some renewed)
    ∨ (¬ target.MaintainsHeader root location ∧ renewed = text)

theorem headerStep_of_textAt_eq_ok {renewed : String}
    (htext : checkout.content? location = some (.text text))
    (h : Revision.textAt location
      (headerRevisions checkout root copyright target.emitter.headerFolders) text = .ok renewed) :
    target.HeaderStep root copyright location text renewed := by
  have hfile : location ∈ checkout.files.map Prod.fst := by
    rw [← isFile_iff, isFile, htext, Option.isSome_some]
  by_cases hmaintains : target.MaintainsHeader root location
  · have hmem : location ∈ (headerRevisions checkout root copyright
        target.emitter.headerFolders).map Revision.location :=
      mem_locations_headerRevisions_iff.mpr ⟨hfile, hmaintains⟩
    obtain ⟨revision, hrevision, rfl⟩ := List.mem_map.mp hmem
    obtain ⟨path, rfl⟩ := exists_renewal_of_mem_headerRevisions hrevision
    rw [Revision.textAt_of_mem hrevision nodup_locations_headerRevisions] at h
    exact Or.inl ⟨hmaintains, Header.renewal_change_eq_ok_iff.mp h⟩
  · have hne : ∀ revision ∈ headerRevisions checkout root copyright target.emitter.headerFolders,
        revision.location ≠ location := by
      rintro revision hrevision rfl
      have hmem := mem_locations_headerRevisions_iff.mp (List.mem_map_of_mem hrevision)
      exact hmaintains hmem.2
    rw [Revision.textAt_of_forall_ne hne] at h
    exact Or.inr ⟨hmaintains, (Except.ok.inj h).symm⟩

section Edits

variable (hemit : target.emitter.emit interface sources = .ok edits) {finish : Finisher}
include hemit

/-- The edits of a target are edits of its files. -/
theorem path_of_mem_edits {edit : Edit} (h : edit ∈ edits) :
    ∃ file ∈ target.emitter.files, edit.path = ⟨file⟩ := by
  obtain ⟨sheets, hsheets, hpaths⟩ := exists_sheets_of_emit_eq_ok hemit
  rw [← hpaths]
  exact Sheet.path_of_mem_allEdits hsheets h

theorem nodup_blocksAt (path : Path) : ((FileEdits.blocksAt path edits).map Prod.fst).Nodup := by
  obtain ⟨sheets, hsheets, hpaths⟩ := exists_sheets_of_emit_eq_ok hemit
  exact Sheet.nodup_blocksAt hsheets path (hpaths ▸ target.pairwise_files)

theorem path_of_mem_ofEdits {group : FileEdits} (h : group ∈ FileEdits.ofEdits edits) :
    ∃ file ∈ target.emitter.files, group.path = ⟨file⟩ := by
  obtain ⟨edit, hedit, hpath⟩ := (FileEdits.grouped_ofEdits edits).named group h
  rw [← hpath]
  exact path_of_mem_edits hemit hedit

theorem owns_of_mem_editRevisions {revision : Revision}
    (h : revision ∈ editRevisions root finish edits) : target.Owns root revision.location := by
  obtain ⟨group, hgroup, rfl⟩ := List.mem_map.mp h
  obtain ⟨file, hfile, hpath⟩ := path_of_mem_ofEdits hemit hgroup
  refine ⟨file, hfile, ?_⟩
  rw [FileEdits.location_revision, hpath]

theorem nodup_locations_editRevisions :
    ((editRevisions root finish edits).map Revision.location).Nodup := by
  have hdistinct := (FileEdits.grouped_ofEdits edits).distinct
  rw [FileEdits.Distinct, List.pairwise_map] at hdistinct
  rw [editRevisions, List.map_map, List.Nodup, List.pairwise_map]
  refine hdistinct.imp_of_mem fun {group other} hgroup hother hne hlocation => hne ?_
  obtain ⟨file, hfile, hpath⟩ := path_of_mem_ofEdits hemit hgroup
  obtain ⟨file', hfile', hpath'⟩ := path_of_mem_ofEdits hemit hother
  simp only [Function.comp_apply, FileEdits.location_revision, hpath, hpath'] at hlocation
  rw [hpath, hpath', eq_of_location_eq root hfile hfile' hlocation]
  exact Path.same_iff.mpr rfl

theorem mem_ofEdits_or_blocksAt_eq_nil {file : String} (hfile : file ∈ target.emitter.files) :
    (∃ group ∈ FileEdits.ofEdits edits, group.path = ⟨file⟩)
      ∨ FileEdits.blocksAt ⟨file⟩ edits = [] := by
  refine or_iff_not_imp_left.mpr fun hgroup => ?_
  have hnone : ∀ edit ∈ edits, ¬ Path.same ⟨file⟩ edit.path := by
    intro edit hedit hsame
    obtain ⟨group, hmem, hgroup'⟩ := (FileEdits.grouped_ofEdits edits).covered edit hedit
    obtain ⟨file', hfile', hpath⟩ := path_of_mem_ofEdits hemit hmem
    have hsame' : Path.same ⟨file⟩ ⟨file'⟩ := by
      rw [hpath] at hgroup'
      exact Path.same_iff.mpr ((Path.same_iff.mp hsame).trans (Path.same_iff.mp hgroup').symm)
    exact hgroup ⟨group, hmem, by rw [hpath, eq_of_same hfile hfile' hsame']⟩
  rw [FileEdits.blocksAt, List.filter_eq_nil_iff.mpr hnone, List.map_nil]

/-- The edits of a target give a file that it owns the lines of its blocks. -/
theorem textAt_editRevisions {file : String} (hfile : file ∈ target.emitter.files) (text : String) :
    Revision.textAt (root.join file).location (editRevisions root Finisher.identity edits) text =
      Block.spliceAll (root.join file) text (FileEdits.blocksAt ⟨file⟩ edits) := by
  by_cases hgroup : ∃ group ∈ FileEdits.ofEdits edits, group.path = ⟨file⟩
  · obtain ⟨group, hgroup, hpath⟩ := hgroup
    have hblocks := (FileEdits.grouped_ofEdits edits).blocks group hgroup
    have hrevision : group.revision root Finisher.identity ∈
        editRevisions root Finisher.identity edits := List.mem_map_of_mem hgroup
    have hlocation : (group.revision root Finisher.identity).location = (root.join file).location := by
      rw [FileEdits.location_revision, hpath]
    rw [← hlocation, Revision.textAt_of_mem hrevision (nodup_locations_editRevisions hemit)]
    change Work.finished Finisher.identity (root.join group.path.text) group.blocks text = _
    rw [Work.finished_identity, hblocks, hpath]
  -- without a group for the file there is neither a revision of it nor a block
  · have hne : ∀ revision ∈ editRevisions root Finisher.identity edits,
        revision.location ≠ (root.join file).location := by
      intro revision hrevision hlocation
      obtain ⟨group, hmem, rfl⟩ := List.mem_map.mp hrevision
      obtain ⟨file', hfile', hpath⟩ := path_of_mem_ofEdits hemit hmem
      rw [FileEdits.location_revision, hpath] at hlocation
      exact hgroup ⟨group, hmem, by rw [hpath, eq_of_location_eq root hfile' hfile hlocation]⟩
    have hnone := (mem_ofEdits_or_blocksAt_eq_nil hemit hfile).resolve_left hgroup
    rw [Revision.textAt_of_forall_ne hne, hnone]
    rfl

theorem textAt_editRevisions_of_not_owns (h : ¬ target.Owns root location) (text : String) :
    Revision.textAt location (editRevisions root finish edits) text = .ok text := by
  refine Revision.textAt_of_forall_ne (fun revision hrevision heq => h ?_) text
  rw [← heq]
  exact owns_of_mem_editRevisions hemit hrevision

end Edits

theorem nodup_select (requested : List Target) : (select requested).Nodup := by
  have hall : all.Nodup := by decide
  exact List.filter_sublist.nodup hall

end Target

/-- The edits that a target calls for; there are none if its emitter fails. -/
def Target.edits (interface : Interface) (sources : Sources) (target : Target) : List Edit :=
  match target.emitter.emit interface sources with
  | .ok edits => edits
  | .error _ => []

/-- The revisions of a target in a run that does not format. -/
def Target.revisions (checkout : Checkout) (interface : Interface) (root : Path) (target : Target) :
    List Revision :=
  headerRevisions checkout root interface.copyright target.emitter.headerFolders
    ++ editRevisions root Finisher.identity (target.edits interface ⟨checkout, root⟩)

namespace Generation

variable {before after : Checkout} {interface : Interface} {sources : Sources} {root : Path}
  {location : Location} {targets : List Target} {target : Target}

/-- Rendering succeeds exactly if the flag sets are valid and every emitter succeeds. -/
theorem render_eq_ok_iff {rendered : List (Emitter × List Edit)} :
    render (targets.map Target.emitter) interface sources = .ok rendered ↔
      interface.checkFlags = .ok () ∧
        (∀ target ∈ targets,
          target.emitter.emit interface sources = .ok (target.edits interface sources)) ∧
        rendered = targets.map fun target => (target.emitter, target.edits interface sources) := by
  have hentry {target : Target} {entry : Emitter × List Edit} :
      (do return (target.emitter, ← target.emitter.emit interface sources) : Except EmitError _) =
          .ok entry ↔
        target.emitter.emit interface sources = .ok (target.edits interface sources)
          ∧ entry = (target.emitter, target.edits interface sources) := by
    unfold Target.edits
    cases target.emitter.emit interface sources <;> simp [pure, Except.pure, bind, Except.bind, eq_comm]
  rw [render, except_bind_eq_ok_iff]
  constructor
  · rintro ⟨⟨⟩, hflags, h⟩
    refine ⟨hflags, ?_⟩
    clear hflags
    -- one emitter after the other, each with the edits that it yields
    induction targets generalizing rendered with
    | nil =>
        cases h
        simp
    | cons target rest ih =>
        rw [List.map_cons, List.mapM_cons, except_bind_eq_ok_iff] at h
        obtain ⟨entry, hfirst, h⟩ := h
        obtain ⟨others, hothers, h⟩ := except_bind_eq_ok_iff.mp h
        cases h
        obtain ⟨hemit, rfl⟩ := hentry.mp hfirst
        obtain ⟨hrest, rfl⟩ := ih hothers
        exact ⟨List.forall_mem_cons.mpr ⟨hemit, hrest⟩, rfl⟩
  · rintro ⟨hflags, hemit, rfl⟩
    refine ⟨(), hflags, ?_⟩
    clear hflags
    induction targets with
    | nil => rfl
    | cons target rest ih =>
        obtain ⟨hfirst, hrest⟩ := List.forall_mem_cons.mp hemit
        rw [List.map_cons, List.mapM_cons, except_bind_eq_ok_iff]
        refine ⟨_, hentry.mpr ⟨hfirst, rfl⟩, except_bind_eq_ok_iff.mpr ⟨_, ih hrest, rfl⟩⟩

theorem owns_or_maintains_of_mem_revisions {revision : Revision}
    (hemit : target.emitter.emit interface ⟨before, root⟩ =
      .ok (target.edits interface ⟨before, root⟩))
    (h : revision ∈ target.revisions before interface root) :
    target.Owns root revision.location ∨ target.MaintainsHeader root revision.location := by
  rcases List.mem_append.mp h with hheader | hedit
  · have hmem := Target.mem_locations_headerRevisions_iff.mp (List.mem_map_of_mem hheader)
    exact Or.inr hmem.2
  · exact Or.inl (Target.owns_of_mem_editRevisions hemit hedit)

theorem holds_of_mem_revisions {revision : Revision}
    (hemit : target.emitter.emit interface ⟨before, root⟩ =
      .ok (target.edits interface ⟨before, root⟩))
    (h : revision ∈ target.revisions before interface root) :
    target.Holds root revision.location := by
  rcases owns_or_maintains_of_mem_revisions hemit h with howns | hmaintains
  · exact howns.holds
  · exact hmaintains.holds

/-- A file of which a target maintains the header holds a text when a run has succeeded. -/
theorem exists_text_of_maintainsHeader (hmem : target ∈ targets)
    (hmaintains : target.MaintainsHeader root location)
    (hrevised : Revised (targets.flatMap (Target.revisions before interface root)) before after)
    {content : Content} (hcontent : before.content? location = some content) :
    ∃ text, before.content? location = some (.text text) := by
  have hfile : location ∈ before.files.map Prod.fst := by
    rw [← isFile_iff, isFile, hcontent, Option.isSome_some]
  have hlocation : location ∈ (headerRevisions before root interface.copyright
      target.emitter.headerFolders).map Revision.location :=
    Target.mem_locations_headerRevisions_iff.mpr ⟨hfile, hmaintains⟩
  obtain ⟨revision, hrevision, rfl⟩ := List.mem_map.mp hlocation
  exact hrevised.exists_text (List.mem_flatMap.mpr ⟨target, hmem, List.mem_append_left _ hrevision⟩)

/-- A file with blocks that are given lines holds a text when a run has succeeded. -/
theorem exists_text_of_mem_ofEdits (hmem : target ∈ targets) {group : FileEdits}
    (hgroup : group ∈ FileEdits.ofEdits (target.edits interface ⟨before, root⟩))
    (hrevised : Revised (targets.flatMap (Target.revisions before interface root)) before after) :
    ∃ text, before.content? (root.join group.path.text).location = some (.text text) := by
  have hrevision : group.revision root Finisher.identity ∈ target.revisions before interface root :=
    List.mem_append_right _ (List.mem_map_of_mem hgroup)
  rw [← FileEdits.location_revision root Finisher.identity]
  exact hrevised.exists_text (List.mem_flatMap.mpr ⟨target, hmem, hrevision⟩)

section Run

variable
  (hemit : ∀ target ∈ targets, target.emitter.emit interface ⟨before, root⟩ =
    .ok (target.edits interface ⟨before, root⟩))
include hemit

/-- A file that no target owns and of which none maintains the header is kept. -/
theorem content?_eq_of_forall_not
    (hrevised : Revised (targets.flatMap (Target.revisions before interface root)) before after)
    (hnone : ∀ target ∈ targets,
      ¬ target.Owns root location ∧ ¬ target.MaintainsHeader root location) :
    after.content? location = before.content? location := by
  refine hrevised.content?_of_forall_ne ?_
  rintro revision hrevision rfl
  obtain ⟨target, htarget, hmem⟩ := List.mem_flatMap.mp hrevision
  obtain ⟨howns, hmaintains⟩ := hnone target htarget
  exact (owns_or_maintains_of_mem_revisions (hemit target htarget) hmem).elim howns hmaintains

/-- Only the target in whose folder a file lies revises it. -/
theorem textAt_flatMap_revisions (hnodup : targets.Nodup) (hmem : target ∈ targets)
    (hholds : target.Holds root location) (text : String) :
    Revision.textAt location (targets.flatMap (Target.revisions before interface root)) text =
      Revision.textAt location (target.revisions before interface root) text := by
  obtain ⟨front, back, rfl⟩ := List.append_of_mem hmem
  rw [List.nodup_append, List.nodup_cons] at hnodup
  obtain ⟨-, ⟨hback, -⟩, hfront⟩ := hnodup
  -- the other targets revise files in their own folders
  have hothers : ∀ others : List Target, others ⊆ front ++ target :: back → target ∉ others →
      ∀ text, Revision.textAt location
        (others.flatMap (Target.revisions before interface root)) text = .ok text := by
    intro others hsubset hnot
    refine Revision.textAt_of_forall_ne ?_
    rintro revision hrevision rfl
    obtain ⟨other, hother, hin⟩ := List.mem_flatMap.mp hrevision
    have hholds' := holds_of_mem_revisions (hemit other (hsubset hother)) hin
    exact hnot (Target.eq_of_holds hholds hholds' ▸ hother)
  have hbefore := hothers front (List.subset_append_left _ _) fun h =>
    hfront target h target List.mem_cons_self rfl
  have hafter := hothers back
    (fun other hother => List.mem_append_right _ (List.mem_cons_of_mem _ hother)) hback
  rw [List.flatMap_append, List.flatMap_cons, Revision.textAt_append, hbefore]
  change Revision.textAt location (_ ++ _) text = _
  rw [Revision.textAt_append]
  cases Revision.textAt location (target.revisions before interface root) text with
  | error error => rfl
  | ok new => exact hafter new

/-- A file in the folder of a target that holds a text has its header renewed, if the target maintains
it, and then its blocks replaced. -/
theorem exists_steps (hnodup : targets.Nodup) (hmem : target ∈ targets)
    (hholds : target.Holds root location)
    (hrevised : Revised (targets.flatMap (Target.revisions before interface root)) before after)
    {text : String} (htext : before.content? location = some (.text text)) :
    ∃ renewed final, target.HeaderStep root interface.copyright location text renewed
      ∧ Revision.textAt location
        (editRevisions root Finisher.identity (target.edits interface ⟨before, root⟩)) renewed =
          .ok final
      ∧ after.content? location = some (.text final) := by
  obtain ⟨final, hfinal, hcontent⟩ := hrevised.textAt_eq_ok htext
  rw [textAt_flatMap_revisions hemit hnodup hmem hholds, Target.revisions, Revision.textAt_append,
    except_bind_eq_ok_iff] at hfinal
  obtain ⟨renewed, hrenewed, hfinal⟩ := hfinal
  exact ⟨renewed, final, Target.headerStep_of_textAt_eq_ok htext hrenewed, hfinal, hcontent⟩

end Run

theorem run_eq_ok_iff {emitters : List Emitter} {finish : Finisher} {mode : Mode}
    {reports : List TargetReport} :
    (Generation.run emitters interface root finish mode).run before = .ok reports after ↔
      ∃ rendered, render emitters interface ⟨before, root⟩ = .ok rendered
        ∧ (applyTargets interface root finish mode rendered).run before = .ok reports after := by
  unfold Generation.run
  rw [Work.run_get_bind, Work.bind_eq_ok_iff]
  simp only [Work.ofExcept_eq_ok_iff, except_mapError_eq_ok_iff, Work.adaptExcept_eq_ok_iff]
  constructor
  · rintro ⟨rendered, middle, ⟨hrender, rfl⟩, happly⟩
    exact ⟨rendered, hrender, happly⟩
  · rintro ⟨rendered, hrender, happly⟩
    exact ⟨rendered, before, ⟨hrender, rfl⟩, happly⟩

end Generation

theorem generate_eq_ok_iff {before after : Checkout} {interface : Interface} {root : Path}
    {emitters : List Emitter} {finish : Finisher} {mode : Mode} {generation : Generation} :
    (generate emitters interface root finish mode).run before = .ok generation after ↔
      ∃ rendered reports, render emitters interface ⟨before, root⟩ = .ok rendered
        ∧ (applyTargets interface root finish mode rendered).run before = .ok reports after
        ∧ generation = ⟨interface.version, mode, reports⟩ := by
  unfold generate
  rw [Work.bind_eq_ok_iff]
  simp only [Work.adaptExcept_eq_ok_iff, Work.pure_eq_ok_iff]
  constructor
  · rintro ⟨reports, middle, hreports, rfl, rfl⟩
    obtain ⟨rendered, hrender, happly⟩ := run_eq_ok_iff.mp hreports
    exact ⟨rendered, reports, hrender, happly, rfl⟩
  · rintro ⟨rendered, reports, hrender, happly, rfl⟩
    exact ⟨reports, after, run_eq_ok_iff.mpr ⟨rendered, hrender, happly⟩, rfl, rfl⟩

namespace Request

variable {before after : Checkout} {interface : Interface} {launch : Formatter.Launcher}
  {request : Request} {generation : Generation}

/-- A run without formatter renders all edits and then applies them. -/
theorem run_eq_ok_iff (hformatter : request.formatter? = none) :
    (request.run launch interface).run before = .ok generation after ↔
      ∃ rendered reports,
        render ((Target.select request.targets).map Target.emitter) interface
            ⟨before, request.root⟩ = .ok rendered
          ∧ (applyTargets interface request.root Finisher.identity request.mode rendered).run before =
            .ok reports after
          ∧ generation = ⟨interface.version, request.mode, reports⟩ := by
  unfold Request.run
  rw [Work.run_get_bind, hformatter, Finisher.ofFormatter?]
  exact generate_eq_ok_iff

/-- What a run without formatter has done when it succeeds. -/
theorem revised_of_run_eq_ok (hformatter : request.formatter? = none) (hmode : request.mode = .write)
    (h : (request.run launch interface).run before = .ok generation after) :
    (∀ target ∈ Target.select request.targets,
        target.emitter.emit interface ⟨before, request.root⟩ =
            .ok (target.edits interface ⟨before, request.root⟩)
          ∧ Entered before request.root target.emitter.headerFolders)
      ∧ Revised ((Target.select request.targets).flatMap
        (Target.revisions before interface request.root)) before after := by
  obtain ⟨rendered, reports, hrender, happly, -⟩ := (run_eq_ok_iff hformatter).mp h
  obtain ⟨-, hemit, rfl⟩ := render_eq_ok_iff.mp hrender
  rw [hmode] at happly
  obtain ⟨hrevised, hentered⟩ := revised_of_applyTargets_eq_ok happly
  rw [revisions, List.flatMap_map] at hrevised
  refine ⟨fun target htarget => ⟨hemit target htarget, ?_⟩, hrevised⟩
  exact hentered _ (List.mem_map_of_mem htarget)

end Request

end Bindery
