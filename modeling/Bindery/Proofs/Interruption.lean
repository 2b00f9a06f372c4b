import Bindery.Proofs.Independence

/-!
# Interruption

A run that fails while files are brought up to date has made some of its revisions, in their order. A file
is written once for its header and once for all of its blocks. So each file is as it was, or has its header
renewed, or is final; the files of the targets before the one that failed are final, and those of the
targets behind it are as they were.
-/

namespace Bindery

open Checkout Generation

variable {before middle after : Checkout} {interface : Interface} {root : Path} {target : Target}
  {targets : List Target} {location : Location}

namespace Generation

open Work

/-- When targets are not all brought up to date, the ones in front of the first that fails are. -/
theorem exists_of_applyTargets_eq_error {sources : Sources} {finish : Finisher} {mode : Mode}
    {error : FileError}
    (h : (applyTargets interface root finish mode (targets.map fun target =>
      (target.emitter, target.edits interface sources))).run before = .error error after) :
    ∃ earlier target later reports middle, targets = earlier ++ target :: later
      ∧ (applyTargets interface root finish mode (earlier.map fun target =>
        (target.emitter, target.edits interface sources))).run before = .ok reports middle
      ∧ (applyTarget interface root finish mode target.emitter (target.edits interface sources)).run middle =
        .error error after := by
  induction targets generalizing before with
  | nil => cases h
  | cons target rest ih =>
      rw [List.map_cons, applyTargets] at h
      rcases bind_eq_error_iff.mp h with hfails | ⟨report, middle, hfirst, h⟩
      · exact ⟨[], target, rest, [], before, rfl, rfl, hfails⟩
      · rcases bind_eq_error_iff.mp h with hfails | ⟨reports, last, -, h⟩
        · obtain ⟨earlier, failing, later, reports, last, rfl, hearlier, hfailing⟩ := ih hfails
          refine ⟨target :: earlier, failing, later, report :: reports, last, rfl, ?_, hfailing⟩
          rw [List.map_cons, applyTargets]
          apply bind_eq_ok_iff.mpr
          exact ⟨report, middle, hfirst, bind_eq_ok_iff.mpr ⟨reports, last, hearlier, rfl⟩⟩
        · cases h

end Generation

namespace Target

variable {text new : String}

/-- What a run leaves in a file of a target that held a text: the header renewed, if the target maintains
it, and then all blocks of the file replaced that were rendered for it. -/
def FinalText (checkout : Checkout) (interface : Interface) (root : Path) (target : Target)
    (location : Location) (text final : String) : Prop :=
  ∃ renewed, target.HeaderStep root interface.copyright location text renewed
    ∧ (∀ file ∈ target.emitter.files, location = (root.join file).location →
      Block.spliceAll (root.join file) renewed
        (FileEdits.blocksAt ⟨file⟩ (target.edits interface ⟨checkout, root⟩)) = .ok final)
    ∧ (¬ target.Owns root location → final = renewed)

/-- The files of a target are final. -/
structure Finished (before after : Checkout) (interface : Interface) (root : Path) (target : Target) :
    Prop where
  /-- a file of which the target maintains the header holds a text -/
  header_text : ∀ location content, target.MaintainsHeader root location →
    before.content? location = some content → ∃ text, content = .text text
  /-- a file for which blocks were rendered holds a text -/
  blocks_text : ∀ file ∈ target.emitter.files,
    FileEdits.blocksAt ⟨file⟩ (target.edits interface ⟨before, root⟩) ≠ [] →
      ∃ text, before.content? (root.join file).location = some (.text text)
  texts : ∀ location text, target.Holds root location → before.content? location = some (.text text) →
    ∃ final, target.FinalText before interface root location text final
      ∧ after.content? location = some (.text final)
  others : ∀ location, target.Holds root location →
    (∀ text, before.content? location ≠ some (.text text)) →
      after.content? location = before.content? location

/-- A target has changed a file, and not only in part: its header is renewed, or it is final. -/
def RenewedOrFinal (before after : Checkout) (interface : Interface) (root : Path) (target : Target)
    (location : Location) : Prop :=
  ∃ text new, before.content? location = some (.text text) ∧ after.content? location = some (.text new)
    ∧ ((target.MaintainsHeader root location
        ∧ Header.renew? (Header.comment interface.copyright) text = some new)
      ∨ target.FinalText before interface root location text new)

theorem Finished.of_content? (h : target.Finished before middle interface root)
    (hsame : ∀ location, target.Holds root location →
      after.content? location = middle.content? location) :
    target.Finished before after interface root := by
  refine ⟨h.header_text, h.blocks_text, ?_, ?_⟩
  · intro location text hholds htext
    obtain ⟨final, hfinal, hmiddle⟩ := h.texts location text hholds htext
    exact ⟨final, hfinal, (hsame location hholds).trans hmiddle⟩
  · intro location hholds hnone
    exact (hsame location hholds).trans (h.others location hholds hnone)

theorem Finished.renewedOrFinal (h : target.Finished before after interface root)
    (hholds : target.Holds root location) :
    after.content? location = before.content? location
      ∨ target.RenewedOrFinal before after interface root location := by
  by_cases htext : ∃ text, before.content? location = some (.text text)
  · obtain ⟨text, htext⟩ := htext
    obtain ⟨final, hfinal, hafter⟩ := h.texts location text hholds htext
    exact Or.inr ⟨text, final, htext, hafter, Or.inr hfinal⟩
  · exact Or.inl (h.others location hholds fun text heq => htext ⟨text, heq⟩)

variable (hemit : target.Emits before interface root)
include hemit

theorem finalText_of_textAt_eq_ok {renewed final : String}
    (hstep : target.HeaderStep root interface.copyright location text renewed)
    (hfinal : Revision.textAt location
      (editRevisions root Finisher.identity (target.edits interface ⟨before, root⟩)) renewed = .ok final) :
    target.FinalText before interface root location text final := by
  refine ⟨renewed, hstep, ?_, ?_⟩
  · rintro file hfile rfl
    rwa [← textAt_editRevisions hemit hfile]
  · intro hnot
    rw [textAt_editRevisions_of_not_owns hemit hnot] at hfinal
    exact (Except.ok.inj hfinal).symm

/-- The first revisions of a target leave a text as it was, renew its header, or make it final. -/
theorem text_of_prefix_revisions {done : List Revision}
    (hdone : done <+: target.revisions before interface root)
    (htext : before.content? location = some (.text text))
    (hnew : Revision.textAt location done text = .ok new) :
    new = text
      ∨ (target.MaintainsHeader root location
        ∧ Header.renew? (Header.comment interface.copyright) text = some new)
      ∨ target.FinalText before interface root location text new := by
  let headers := headerRevisions before root interface.copyright target.emitter.headerFolders
  let edits := editRevisions root Finisher.identity (target.edits interface ⟨before, root⟩)
  have hheaders : (headers.map Revision.location).Nodup := nodup_locations_headerRevisions
  have hedits : (edits.map Revision.location).Nodup := nodup_locations_editRevisions hemit
  rcases List.prefix_or_prefix_of_prefix hdone (List.prefix_append headers edits) with hpart | ⟨more, rfl⟩
  -- the run stopped among the headers
  · rcases Revision.textAt_of_prefix hpart hheaders hnew with hsame | hnew
    · exact Or.inl hsame
    · rcases headerStep_of_textAt_eq_ok htext hnew with hrenewed | ⟨-, hsame⟩
      · exact Or.inr (Or.inl hrenewed)
      · exact Or.inl hsame
  -- the run stopped among the files with blocks
  · have hmore : more <+: edits := (List.prefix_append_right_inj headers).mp hdone
    rw [Revision.textAt_append, except_bind_eq_ok_iff] at hnew
    obtain ⟨renewed, hrenewed, hnew⟩ := hnew
    have hstep := headerStep_of_textAt_eq_ok htext hrenewed
    rcases Revision.textAt_of_prefix hmore hedits hnew with rfl | hfinal
    · rcases hstep with hmaintained | ⟨-, hsame⟩
      · exact Or.inr (Or.inl hmaintained)
      · exact Or.inl hsame
    · exact Or.inr (Or.inr (finalText_of_textAt_eq_ok hemit hstep hfinal))

/-- After the first revisions of a target, each file is as it was, has its header renewed, or is final. -/
theorem renewedOrFinal_of_prefix_revisions {done : List Revision}
    (hdone : done <+: target.revisions before interface root) (hmade : Revised done middle after)
    (hmiddle : middle.content? location = before.content? location) :
    after.content? location = before.content? location
      ∨ target.RenewedOrFinal before after interface root location := by
  by_cases htext : ∃ text, before.content? location = some (.text text)
  · obtain ⟨text, htext⟩ := htext
    obtain ⟨new, hnew, hafter⟩ := hmade.textAt_eq_ok (hmiddle.trans htext)
    rcases text_of_prefix_revisions hemit hdone htext hnew with rfl | hchanged
    · exact Or.inl (hafter.trans htext.symm)
    · exact Or.inr ⟨text, new, htext, hafter, hchanged⟩
  · left
    rw [← hmiddle]
    apply hmade.content?_of_forall_ne_text
    intro text heq
    exact htext ⟨text, hmiddle.symm.trans heq⟩

theorem content?_of_prefix_revisions {done : List Revision}
    (hdone : done <+: target.revisions before interface root) (hmade : Revised done middle after)
    (hnot : ¬ target.Holds root location) : after.content? location = middle.content? location := by
  apply hmade.content?_of_forall_ne
  rintro revision hrevision rfl
  exact hnot (holds_of_mem_revisions hemit (hdone.subset hrevision))

end Target

namespace Generation

section Failing

variable {emitters : List Emitter} {finish : Finisher} {mode : Mode} {error : FileError}

/-- Rendering does not fail with an error of a file. -/
theorem run_eq_file_error_iff :
    (Generation.run emitters interface root finish mode).run before = .error (.file error) after ↔
      ∃ rendered, render emitters interface ⟨before, root⟩ = .ok rendered
        ∧ (applyTargets interface root finish mode rendered).run before = .error error after := by
  unfold Generation.run
  rw [Work.run_get_bind, Work.bind_eq_error_iff]
  constructor
  · rintro (hrender | ⟨rendered, middle, hrender, happly⟩)
    · obtain ⟨hrender, -⟩ := Work.ofExcept_eq_error_iff.mp hrender
      cases hrendered : render emitters interface ⟨before, root⟩ with
      | ok rendered =>
          rw [hrendered] at hrender
          cases hrender
      | error cause =>
          rw [hrendered] at hrender
          cases hrender
    · obtain ⟨cause, happly, hcause⟩ := Work.adaptExcept_eq_error_iff.mp happly
      cases hcause
      obtain ⟨hrendered, rfl⟩ := Work.ofExcept_eq_ok_iff.mp hrender
      exact ⟨rendered, except_mapError_eq_ok_iff.mp hrendered, happly⟩
  · rintro ⟨rendered, hrender, happly⟩
    refine Or.inr ⟨rendered, before, ?_, Work.adaptExcept_eq_error_iff.mpr ⟨error, happly, rfl⟩⟩
    exact Work.ofExcept_eq_ok_iff.mpr ⟨except_mapError_eq_ok_iff.mpr hrender, rfl⟩

theorem generate_eq_file_error_iff {context : String} :
    (generate emitters interface root finish mode).run before = .error ⟨context, .file error⟩ after ↔
      context = "Failed to generate code"
        ∧ ∃ rendered, render emitters interface ⟨before, root⟩ = .ok rendered
          ∧ (applyTargets interface root finish mode rendered).run before = .error error after := by
  unfold generate
  rw [Work.bind_eq_error_iff, Work.adaptExcept_eq_error_iff]
  constructor
  · rintro (⟨cause, hrun, hcause⟩ | ⟨reports, middle, -, hpure⟩)
    · cases hcause
      exact ⟨rfl, run_eq_file_error_iff.mp hrun⟩
    · cases hpure
  · rintro ⟨rfl, hrun⟩
    exact Or.inl ⟨.file error, run_eq_file_error_iff.mpr hrun, rfl⟩

end Failing

section Finishing

variable (hnodup : targets.Nodup) (hemit : ∀ target ∈ targets, target.Emits before interface root)
  (hrevised : Revised (targets.flatMap (Target.revisions before interface root)) before after)
include hnodup hemit hrevised

/-- The files of a target are final when its revisions were made. -/
theorem finished_of_revised (hmem : target ∈ targets) : target.Finished before after interface root := by
  refine ⟨?_, ?_, ?_, ?_⟩
  · intro location content hmaintains hcontent
    obtain ⟨text, htext⟩ := exists_text_of_maintainsHeader hmem hmaintains hrevised hcontent
    exact ⟨text, Option.some.inj (hcontent.symm.trans htext)⟩
  · intro file hfile hblocks
    rcases Target.mem_ofEdits_or_blocksAt_eq_nil (hemit target hmem) hfile with hgroup | hnone
    · obtain ⟨group, hgroup, hpath⟩ := hgroup
      have htext := exists_text_of_mem_ofEdits hmem hgroup hrevised
      rwa [hpath] at htext
    · exact absurd hnone hblocks
  · intro location text hholds htext
    obtain ⟨renewed, final, hstep, hfinal, hafter⟩ := exists_steps hemit hnodup hmem hholds hrevised htext
    exact ⟨final, Target.finalText_of_textAt_eq_ok (hemit target hmem) hstep hfinal, hafter⟩
  · intro location _ hnone
    exact hrevised.content?_of_forall_ne_text hnone

end Finishing

end Generation

namespace Request

/-- What a run leaves that failed at one of its targets. -/
structure Interrupted (before after : Checkout) (interface : Interface) (root : Path)
    (earlier : List Target) (target : Target) (later : List Target) : Prop where
  /-- no file is made or removed -/
  sameTree : SameTree before after
  /-- each file is as it was, or was changed by its target, and not only in part -/
  whole : ∀ location, after.content? location = before.content? location
    ∨ ∃ other ∈ earlier ++ [target],
      other.Holds root location ∧ other.RenewedOrFinal before after interface root location
  /-- the files of the targets in front of the one that failed are final -/
  finished : ∀ other ∈ earlier, other.Finished before after interface root
  /-- the files of the targets behind it are as they were -/
  untouched : ∀ other ∈ later, other.Untouched root before after

section State

variable {earlier later : List Target} {done : List Revision}
  (hnodup : (earlier ++ target :: later).Nodup)
  (hemit : ∀ other ∈ earlier ++ target :: later, other.Emits before interface root)
  (hrevised : Revised (earlier.flatMap (Target.revisions before interface root)) before middle)
  (hdone : done <+: target.revisions before interface root) (hmade : Revised done middle after)
include hnodup hemit hrevised hdone hmade

/-- The state when some targets were brought up to date and one made the first of its revisions. -/
theorem interrupted_of_revised : Interrupted before after interface root earlier target later := by
  obtain ⟨hearlier, hbehind, hapart⟩ := List.nodup_append.mp hnodup
  have hfailed : target.Emits before interface root :=
    hemit target (List.mem_append_right _ List.mem_cons_self)
  have hfront : ∀ other ∈ earlier, other.Emits before interface root :=
    fun other hother => hemit other (List.mem_append_left _ hother)
  have hsame : SameTree before after := hrevised.sameTree.trans hmade.sameTree
  have hfirst : Performed .write (earlier.flatMap (Target.revisions before interface root)) before middle :=
    hrevised
  have hlast {location : Location} (hnot : ¬ target.Holds root location) :
      after.content? location = middle.content? location :=
    Target.content?_of_prefix_revisions hfailed hdone hmade hnot
  have hfinished : ∀ other ∈ earlier, other.Finished before after interface root := by
    intro other hother
    apply (finished_of_revised hearlier hfront hrevised hother).of_content?
    intro location hholds
    apply hlast
    intro hholds'
    exact hapart other hother target List.mem_cons_self (Target.eq_of_holds hholds hholds')
  refine ⟨hsame, ?_, hfinished, ?_⟩
  · intro location
    by_cases hholds : ∃ other ∈ earlier, other.Holds root location
    · obtain ⟨other, hother, hholds⟩ := hholds
      rcases (hfinished other hother).renewedOrFinal hholds with hsame | hchanged
      · exact Or.inl hsame
      · exact Or.inr ⟨other, List.mem_append_left _ hother, hholds, hchanged⟩
    · have hmiddle : middle.content? location = before.content? location :=
        hfirst.content?_of_forall_not_holds hfront fun other hother hin => hholds ⟨other, hother, hin⟩
      by_cases hheld : target.Holds root location
      · rcases Target.renewedOrFinal_of_prefix_revisions hfailed hdone hmade hmiddle with hsame | hchanged
        · exact Or.inl hsame
        · exact Or.inr ⟨target, List.mem_append_right _ (List.mem_singleton_self target), hheld, hchanged⟩
      · exact Or.inl ((hlast hheld).trans hmiddle)
  · intro other hother
    have hne : other ≠ target := by
      rintro rfl
      exact (List.nodup_cons.mp hbehind).1 hother
    have hnot : other ∉ earlier := fun hin => hapart other hin other (List.mem_cons_of_mem _ hother) rfl
    refine ⟨hsame, fun location hholds => ?_⟩
    rw [hlast fun hholds' => hne (Target.eq_of_holds hholds hholds')]
    exact (hfirst.untouched hfront hnot).content location hholds

end State

variable {launch : Formatter.Launcher} {request : Request} {context : String} {error : FileError}

/-- A run without formatter that fails with an error of a file fails while edits are applied. -/
theorem run_eq_file_error_iff (hformatter : request.formatter? = none) :
    (request.run launch interface).run before = .error ⟨context, .file error⟩ after ↔
      context = "Failed to generate code" ∧ interface.checkFlags = .ok ()
        ∧ (∀ target ∈ Target.select request.targets, target.Emits before interface request.root)
        ∧ (applyTargets interface request.root Finisher.identity request.mode
          ((Target.select request.targets).map fun target =>
            (target.emitter, target.edits interface ⟨before, request.root⟩))).run before =
              .error error after := by
  unfold Request.run
  rw [Work.run_get_bind, hformatter, Finisher.ofFormatter?, generate_eq_file_error_iff]
  constructor
  · rintro ⟨hcontext, rendered, hrender, happly⟩
    obtain ⟨hflags, hemit, rfl⟩ := render_eq_ok_iff.mp hrender
    exact ⟨hcontext, hflags, hemit, happly⟩
  · rintro ⟨hcontext, hflags, hemit, happly⟩
    exact ⟨hcontext, _, render_eq_ok_iff.mpr ⟨hflags, hemit, rfl⟩, happly⟩

/-- A run that fails while edits are applied leaves only whole files: those of the targets in front of the
one that failed are final, those of the targets behind it are as they were, and each file of the one that
failed is as it was, has its header renewed, or is final. -/
theorem run_interrupted (hmode : request.mode = .write) (hformatter : request.formatter? = none)
    (hrun : (request.run launch interface).run before = .error ⟨context, .file error⟩ after) :
    ∃ earlier target later, Target.select request.targets = earlier ++ target :: later
      ∧ (∃ reports middle,
        (applyTargets interface request.root Finisher.identity .write (earlier.map fun target =>
            (target.emitter, target.edits interface ⟨before, request.root⟩))).run before =
          .ok reports middle
        ∧ (applyTarget interface request.root Finisher.identity .write target.emitter
            (target.edits interface ⟨before, request.root⟩)).run middle = .error error after)
      ∧ Interrupted before after interface request.root earlier target later := by
  obtain ⟨-, -, hemit, happly⟩ := (run_eq_file_error_iff hformatter).mp hrun
  rw [hmode] at happly
  obtain ⟨earlier, target, later, reports, middle, hselect, hearlier, hfailing⟩ :=
    exists_of_applyTargets_eq_error happly
  refine ⟨earlier, target, later, hselect, ⟨reports, middle, hearlier, hfailing⟩, ?_⟩
  have hnodup := Target.nodup_select request.targets
  rw [hselect] at hemit hnodup
  obtain ⟨hearlier', -, -⟩ := List.nodup_append.mp hnodup
  have hnodup₀ : (([] : List Target) ++ earlier).Nodup := hearlier'
  have hemit₀ : ∀ other ∈ ([] : List Target) ++ earlier, other.Emits before interface request.root :=
    fun other hother => hemit other (List.mem_append_left _ hother)
  have hstart : Performed .write (([] : List Target).flatMap
      (Target.revisions before interface request.root)) before before := Performed.nil_iff.mpr rfl
  obtain ⟨-, hrevised, -⟩ := (applyTargets_eq_ok_iff hnodup₀ hemit₀ hstart).mp hearlier
  have hcarried := carriesOut_applyTarget interface request.root Finisher.identity target.emitter
    (target.edits interface ⟨before, request.root⟩) middle
  rw [headerRevisions_of_sameTree (Revised.sameTree hrevised)] at hcarried
  obtain ⟨done, hdone, hmade⟩ := hcarried.exists_done hfailing
  exact interrupted_of_revised hnodup hemit hrevised hdone hmade

end Request

namespace Sample

/-- A request for the mock library and the bindings for .NET, of which the sample has no files. -/
def partialRequest : Request := { mixedRequest with targets := [.mock, .dotnet] }

theorem exists_run_partial_eq_error : ∃ error after,
    (partialRequest.run launch Sample.interface).run mixed =
      .error ⟨"Failed to generate code", .file error⟩ after := by
  have hemit : ∀ target ∈ Target.select partialRequest.targets,
      target.Emits mixed Sample.interface partialRequest.root := by
    have hok : ∀ target ∈ Target.select partialRequest.targets,
        (target.emitter.emit Sample.interface ⟨mixed, partialRequest.root⟩).isOk := by
      decide
    exact fun target htarget => Target.emits_of_isOk (hok target htarget)
  have hmissing : ∃ revision ∈ editRevisions partialRequest.root Finisher.identity
      (Target.dotnet.edits Sample.interface ⟨mixed, partialRequest.root⟩),
      mixed.content? revision.location = none := by
    decide
  cases happly : (applyTargets Sample.interface partialRequest.root Finisher.identity .write
      ((Target.select partialRequest.targets).map fun target =>
        (target.emitter, target.edits Sample.interface ⟨mixed, partialRequest.root⟩))).run mixed with
  | error error after =>
      exact ⟨error, after, (Request.run_eq_file_error_iff rfl).mpr ⟨rfl, rfl, hemit, happly⟩⟩
  | ok reports after =>
      -- a run that succeeds has found every file with blocks
      obtain ⟨hrevised, -⟩ := revised_of_applyTargets_eq_ok happly
      obtain ⟨revision, hrevision, hnone⟩ := hmissing
      have hdotnet : Target.dotnet ∈ Target.select partialRequest.targets := by decide
      obtain ⟨text, htext⟩ := hrevised.exists_text
        (List.mem_flatMap.mpr ⟨_, List.mem_map_of_mem hdotnet, List.mem_append_right _ hrevision⟩)
      rw [hnone] at htext
      cases htext

end Sample

/-- The sample has files of the mock library, which is brought up to date, and none of the bindings for
.NET, at which the run fails. -/
theorem Request.run_interrupted_dotnet : ∃ error after,
    (Sample.partialRequest.run Sample.launch Sample.interface).run Sample.mixed =
        .error ⟨"Failed to generate code", .file error⟩ after
      ∧ ∃ earlier target later, Target.select Sample.partialRequest.targets = earlier ++ target :: later
        ∧ (∃ reports middle,
          (applyTargets Sample.interface Sample.partialRequest.root Finisher.identity .write
              (earlier.map fun target => (target.emitter,
                target.edits Sample.interface ⟨Sample.mixed, Sample.partialRequest.root⟩))).run Sample.mixed =
            .ok reports middle
          ∧ (applyTarget Sample.interface Sample.partialRequest.root Finisher.identity .write target.emitter
              (target.edits Sample.interface ⟨Sample.mixed, Sample.partialRequest.root⟩)).run middle =
            .error error after)
        ∧ Request.Interrupted Sample.mixed after Sample.interface Sample.partialRequest.root earlier target
          later := by
  obtain ⟨error, after, hrun⟩ := Sample.exists_run_partial_eq_error
  exact ⟨error, after, hrun, Request.run_interrupted rfl rfl hrun⟩

end Bindery
