import Bindery.Proofs.Bare
import Bindery.Proofs.Isolation
import Bindery.Proofs.Loading
import Bindery.Proofs.Locality
import Bindery.Proofs.Phases

/-!
# Generating into scaffolds

A run over the scaffolds of a target succeeds: their headers can be renewed, and they have the blocks that
are given lines. Each of these blocks then has exactly its lines when it is read back, and the other
blocks of the scaffolds are empty.
-/

namespace Bindery

open Checkout Generation Text

theorem Layout.Respliced.plain {layout after : Layout} {edits : List (Nat × List String)}
    (h : Layout.Respliced edits layout after) (hplain : ∀ block ∈ layout.blocks, block.Plain) :
    ∀ block ∈ after.blocks, block.Plain := by
  intro block hblock
  have hframe : (block.opening, block.closing) ∈
      layout.blocks.map fun block => (block.opening, block.closing) := by
    rw [← h.frames]
    exact List.mem_map_of_mem hblock
  obtain ⟨old, hold, hsame⟩ := List.mem_map.mp hframe
  rw [Block.Plain, ← (Prod.mk.inj hsame).1]
  exact hplain old hold

theorem FileEdits.mem_blocksAt_iff {path : Path} {edits : List Edit} {block : Nat × List String} :
    block ∈ blocksAt path edits ↔
      ∃ edit ∈ edits, path.same edit.path ∧ (edit.block, edit.lines) = block := by
  simp [blocksAt, and_assoc]

/-- Each block that was given lines has these when it is read back, and the blocks in front of it that
were given none are empty. -/
structure Scaffold.Filled (root : Path) (edits : List Edit) (checkout : Checkout) : Prop where
  lines : ∀ edit ∈ edits, Block.readBody checkout (root.join edit.path.text) edit.block =
    .ok (String.ofList (edit.lines.flatMap fun line => line.toList ++ ['\n']))
  empty : ∀ edit ∈ edits, ∀ index < edit.block,
    (∀ other ∈ edits, other.path = edit.path → other.block ≠ index) →
      Block.readBody checkout (root.join edit.path.text) index = .ok ""

namespace Target

variable {target : Target} {root : Path} {before scaffolded after : Checkout} {interface : Interface}
  {edits : List Edit}

/-- A file of which the header is maintained has the extension of such a file. -/
theorem hasExtension_of_maintainsHeader {file : String} (hfile : file ∈ target.emitter.files)
    (h : target.MaintainsHeader root (root.join file).location) :
    (root.join file).hasExtension headerExtensions := by
  obtain ⟨folder, -, between, last, hlocation, hextension⟩ := h
  obtain ⟨folders, name, hnames, -⟩ := exists_folders_name hfile
  have hall := all_isFileName_of_mem_files hfile
  rw [location_of_mem_files hfile] at hlocation
  rw [hnames] at hall hlocation
  have hsame : name = last := by
    have hends := congrArg List.getLast? hlocation
    rw [← List.append_assoc, List.getLast?_concat, List.getLast?_concat] at hends
    exact Option.some.inj hends
  rw [← Path.join_names file, hnames, Path.hasExtension_join root hall, hsame]
  exact hextension

section Generated

variable (hbare : Bare root target before)
  (hemit : target.emitter.emit interface ⟨before, root⟩ = .ok edits)
  (hwritten : Scaffold.Written root edits edits before scaffolded)
  (hlines : ∀ edit ∈ edits, ∀ line ∈ edit.lines, Block.Unmarked line.toList)
  (hcopyright : Block.Unmarked interface.copyright.toList)

include hbare hemit hwritten in
/-- Every file of which a header is maintained is a scaffold. -/
theorem exists_edit_of_maintainsHeader {location : Location}
    (hfile : location ∈ scaffolded.files.map Prod.fst)
    (hmaintains : target.MaintainsHeader root location) :
    ∃ edit ∈ edits, (root.join edit.path.text).location = location := by
  cases hold : before.isFile location with
  | false =>
      obtain ⟨edit, hedit, hlocation, -⟩ := hwritten.content?_eq (isFile_iff.mpr hfile) hold
      exact ⟨edit, hedit, hlocation⟩
  | true =>
      -- what was there before are schemas, and those have no header
      obtain ⟨rest, rfl⟩ := hmaintains.holds
      have hmem := isFile_iff.mp hold
      obtain ⟨rfl, name, hnames, hending⟩ := hbare.files _ hmem
      rw [hnames, schemaNames_eq] at hmem hmaintains
      have hbelow : [name] ∈ before.below (root.join CoreLibrary.schemaFolder).location := by
        rw [mem_below_iff, CoreLibrary.location_schemaFolder, List.append_assoc]
        exact ⟨by simp, hmem⟩
      have hname := CoreLibrary.isFileName_of_mem_below hbelow
      have hlocation : (root.join (CoreLibrary.schemaFolder ++ "/" ++ name)).location =
          root.location ++ (["yogi-core", "src", "schemas"] ++ [name]) :=
        CoreLibrary.location_schema hname
      rw [← hlocation] at hmaintains
      exact absurd hmaintains (CoreLibrary.not_maintainsHeader_schema hname hending)

include hbare hemit hwritten in
/-- Every revision is one of a scaffold. -/
theorem exists_edit_of_mem_revisions
    (hemit' : target.emitter.emit interface ⟨scaffolded, root⟩ = .ok edits) {revision : Revision}
    (h : revision ∈ target.revisions scaffolded interface root) :
    ∃ edit ∈ edits, (root.join edit.path.text).location = revision.location := by
  rw [revisions, Target.edits, hemit'] at h
  rcases List.mem_append.mp h with hheader | hedit
  · obtain ⟨hfile, hmaintains⟩ := mem_locations_headerRevisions_iff.mp (List.mem_map_of_mem hheader)
    exact exists_edit_of_maintainsHeader hbare hemit hwritten hfile hmaintains
  · obtain ⟨group, hgroup, rfl⟩ := List.mem_map.mp hedit
    obtain ⟨edit, hedit, hpath⟩ := (FileEdits.grouped_ofEdits edits).named group hgroup
    refine ⟨edit, hedit, ?_⟩
    rw [FileEdits.location_revision, hpath]

include hbare hemit hwritten hcopyright in
/-- The header of a scaffold can be renewed if it has one, and its blocks stay. -/
theorem exists_renewed {edit : Edit} (hedit : edit ∈ edits) :
    ∃ text renewed, scaffolded.content? (root.join edit.path.text).location = some (.text text)
      ∧ Revision.textAt (root.join edit.path.text).location
        (headerRevisions scaffolded root interface.copyright target.emitter.headerFolders) text =
          .ok renewed
      ∧ (Layout.ofText renewed.toList).Blank (Scaffold.blocksNeeded edits edit) := by
  have hcontent := content?_of_written hbare hemit hwritten hedit
  have hthere : (root.join edit.path.text).location ∈ scaffolded.files.map Prod.fst :=
    isFile_iff.mp (hwritten.covered edit hedit)
  obtain ⟨file, hfile, hpath⟩ := path_of_mem_edits hemit hedit
  by_cases hmaintains : target.MaintainsHeader root (root.join edit.path.text).location
  · have hextension : (root.join edit.path.text).hasExtension ["h", "cc"] := by
      rw [hpath] at hmaintains ⊢
      exact hasExtension_of_maintainsHeader hfile hmaintains
    obtain ⟨renewed, hrenewed, hblank⟩ := Scaffold.exists_renew?_text hextension hcopyright
      (Scaffold.blocksNeeded edits edit)
    have hmem : (root.join edit.path.text).location ∈ (headerRevisions scaffolded root
        interface.copyright target.emitter.headerFolders).map Revision.location :=
      mem_locations_headerRevisions_iff.mpr ⟨hthere, hmaintains⟩
    obtain ⟨revision, hrevision, hlocation⟩ := List.mem_map.mp hmem
    obtain ⟨path, rfl⟩ := exists_renewal_of_mem_headerRevisions hrevision
    refine ⟨_, renewed, hcontent, ?_, hblank⟩
    rw [← hlocation, Revision.textAt_of_mem hrevision nodup_locations_headerRevisions]
    exact Header.renewal_change_eq_ok_iff.mpr hrenewed
  · refine ⟨_, _, hcontent, Revision.textAt_of_forall_ne ?_ _, Scaffold.blank_text _ _⟩
    intro revision hrevision hlocation
    have hmem := mem_locations_headerRevisions_iff.mp (List.mem_map_of_mem hrevision)
    exact hmaintains (hlocation ▸ hmem.2)

include hbare hemit hwritten hlines hcopyright in
/-- The blocks of a scaffold can be given their lines. -/
theorem exists_respliced (hemit' : target.emitter.emit interface ⟨scaffolded, root⟩ = .ok edits)
    {edit : Edit} (hedit : edit ∈ edits) :
    ∃ renewed final : String,
      Revision.textAfter? scaffolded (target.revisions scaffolded interface root)
          (root.join edit.path.text).location = some final
        ∧ (Layout.ofText renewed.toList).Blank (Scaffold.blocksNeeded edits edit)
        ∧ Layout.Respliced (FileEdits.blocksAt edit.path edits) (Layout.ofText renewed.toList)
          (Layout.ofText final.toList) := by
  obtain ⟨text, renewed, hcontent, hrenewed, hblank⟩ :=
    exists_renewed hbare hemit hwritten hcopyright hedit
  obtain ⟨file, hfile, hpath⟩ := path_of_mem_edits hemit hedit
  have hunmarked : ∀ block ∈ FileEdits.blocksAt edit.path edits, ∀ line ∈ block.2,
      Block.Unmarked line.toList := by
    rintro block hblock line hline
    obtain ⟨other, hother, -, rfl⟩ := FileEdits.mem_blocksAt_iff.mp hblock
    exact hlines other hother line hline
  have hindices : ∀ block ∈ FileEdits.blocksAt edit.path edits, block.1 < Block.count renewed := by
    rintro block hblock
    obtain ⟨other, hother, hsame, rfl⟩ := FileEdits.mem_blocksAt_iff.mp hblock
    obtain ⟨file', hfile', hpath'⟩ := path_of_mem_edits hemit hother
    rw [Block.count, hblank.length]
    refine Scaffold.lt_blocksNeeded hother ?_
    rw [hpath, hpath'] at hsame ⊢
    rw [eq_of_same hfile hfile' hsame]
  obtain ⟨final, hfinal⟩ : ∃ final, Block.spliceAll (root.join edit.path.text) renewed
      (FileEdits.blocksAt edit.path edits) = .ok final :=
    ⟨String.ofList _, (Block.spliceAll_eq_ok_iff hunmarked).mpr ⟨hindices, String.toList_ofList⟩⟩
  refine ⟨renewed, final, ?_, hblank, Block.respliced_of_spliceAll_eq_ok hunmarked
    (nodup_blocksAt hemit edit.path) hfinal⟩
  rw [Revision.textAfter?_of_content? hcontent, revisions, Target.edits, hemit',
    Revision.textAt_append, hrenewed, except_toOption_eq_some_iff]
  change Revision.textAt _ (editRevisions root Finisher.identity edits) renewed = _
  rw [← hfinal, hpath]
  exact textAt_editRevisions hemit hfile renewed

include hbare hemit hwritten hlines hcopyright in
/-- What is read back from a file after its revision is the body that the block has there. -/
theorem exists_read {after : Checkout}
    (hemit' : target.emitter.emit interface ⟨scaffolded, root⟩ = .ok edits)
    (hrevised : Revised (target.revisions scaffolded interface root) scaffolded after)
    {edit : Edit} (hedit : edit ∈ edits) :
    ∃ renewed final : String, (Layout.ofText renewed.toList).Blank (Scaffold.blocksNeeded edits edit)
      ∧ Layout.Respliced (FileEdits.blocksAt edit.path edits) (Layout.ofText renewed.toList)
        (Layout.ofText final.toList)
      ∧ ∀ index body, (Layout.ofText final.toList).body? index = some body →
        Block.readBody after (root.join edit.path.text) index = .ok (String.ofList body) := by
  obtain ⟨renewed, final, hfinal, hblank, hrespliced⟩ :=
    exists_respliced hbare hemit hwritten hlines hcopyright hemit' hedit
  refine ⟨renewed, final, hblank, hrespliced, fun index body hbody => ?_⟩
  obtain ⟨text, htext, hfinal⟩ := Revision.textAfter?_eq_some_iff.mp hfinal
  obtain ⟨new, hnew, hafter⟩ := hrevised.textAt_eq_ok htext
  obtain rfl := Except.ok.inj (hnew.symm.trans hfinal)
  exact Block.readBody_eq_ok (read_eq_ok_iff.mpr hafter) (hrespliced.plain hblank.plain) hbody

include hbare hemit hwritten hlines hcopyright in
/-- The revisions of the target can be made, and then its blocks are filled. -/
theorem exists_filled (hemit' : target.emitter.emit interface ⟨scaffolded, root⟩ = .ok edits) :
    ∃ after, Revised (target.revisions scaffolded interface root) scaffolded after
      ∧ Scaffold.Filled root edits after := by
  obtain ⟨after, hrevised⟩ :
      ∃ after, Revised (target.revisions scaffolded interface root) scaffolded after := by
    rw [Revised.exists_iff]
    intro revision hrevision
    obtain ⟨edit, hedit, hlocation⟩ :=
      exists_edit_of_mem_revisions hbare hemit hwritten hemit' hrevision
    obtain ⟨renewed, final, hfinal, -⟩ :=
      exists_respliced hbare hemit hwritten hlines hcopyright hemit' hedit
    exact ⟨final, hlocation ▸ hfinal⟩
  refine ⟨after, hrevised, ⟨?_, ?_⟩⟩
  · intro edit hedit
    obtain ⟨renewed, final, -, hrespliced, hbodies⟩ :=
      exists_read hbare hemit hwritten hlines hcopyright hemit' hrevised hedit
    have hmem : (edit.block, edit.lines) ∈ FileEdits.blocksAt edit.path edits :=
      FileEdits.mem_blocksAt_iff.mpr ⟨edit, hedit, Path.same_iff.mpr rfl, rfl⟩
    exact hbodies _ _ (hrespliced.replaced _ hmem)
  · intro edit hedit index hindex hnone
    obtain ⟨renewed, final, hblank, hrespliced, hbodies⟩ :=
      exists_read hbare hemit hwritten hlines hcopyright hemit' hrevised hedit
    have hother : ∀ block ∈ FileEdits.blocksAt edit.path edits, block.1 ≠ index := by
      intro block hblock
      obtain ⟨other, hother, hsame, rfl⟩ := FileEdits.mem_blocksAt_iff.mp hblock
      obtain ⟨file, hfile, hpath⟩ := path_of_mem_edits hemit hedit
      obtain ⟨file', hfile', hpath'⟩ := path_of_mem_edits hemit hother
      refine hnone other hother ?_
      rw [hpath, hpath'] at hsame ⊢
      rw [eq_of_same hfile hfile' hsame]
    have hlt : index < (Layout.ofText renewed.toList).blocks.length := by
      rw [hblank.length]
      exact hindex.trans (Scaffold.lt_blocksNeeded hedit rfl)
    refine hbodies index [] ?_
    rw [hrespliced.kept index hother, Layout.body?, List.getElem?_eq_getElem hlt, Option.map_some,
      hblank.body _ (List.getElem_mem hlt)]

end Generated

/-- The scaffolds of a target are written where nothing of it is there yet, and a run over them succeeds
when the flag sets have values. Each block that it gives lines to has exactly these lines when it is read
back, and the blocks in front of it that it leaves out are empty. -/
theorem scaffold_generate (htarget : target ∈ standalone) (hbare : Bare root target before)
    (hemit : target.emitter.emit interface ⟨before, root⟩ = .ok edits)
    (hflags : interface.checkFlags = .ok ())
    (hlines : ∀ edit ∈ edits, ∀ line ∈ edit.lines, Block.Unmarked line.toList)
    (hcopyright : Block.Unmarked interface.copyright.toList) :
    ∃ scaffolded reports after,
      (Scaffold.writeAll root target.emitter interface).run before = .ok () scaffolded
        ∧ (Generation.run [target.emitter] interface root Finisher.identity .write).run scaffolded =
          .ok reports after
        ∧ Scaffold.Filled root edits after := by
  obtain ⟨scaffolded, hscaffold, hwritten⟩ := exists_scaffolded hbare hemit
  have hemit' := emit_of_written hwritten htarget hemit
  obtain ⟨after, hrevised, hfilled⟩ := exists_filled hbare hemit hwritten hlines hcopyright hemit'
  have hemits : ∀ other ∈ [target], other.Emits scaffolded interface root := by
    rintro other hother
    obtain rfl := List.mem_singleton.mp hother
    exact emits_of_isOk (by rw [hemit']; rfl)
  have hstart : Performed .write (([] : List Target).flatMap
      (Target.revisions scaffolded interface root)) scaffolded scaffolded := Performed.nil_iff.mpr rfl
  have hperformed : Performed .write ([target].flatMap (Target.revisions scaffolded interface root))
      scaffolded after := by
    rwa [List.flatMap_singleton]
  have hentered : ∀ other ∈ [target], Entered scaffolded root other.emitter.headerFolders := by
    intro other hother
    obtain rfl := List.mem_singleton.mp hother
    exact entered_of_written hwritten htarget hemit
  have hrender := render_eq_ok_iff.mpr ⟨hflags, hemits, rfl⟩
  have happly := (applyTargets_eq_ok_iff (List.nodup_singleton target) hemits hstart).mpr
    ⟨hentered, hperformed, rfl⟩
  exact ⟨scaffolded, _, after, hscaffold, Generation.run_eq_ok_iff.mpr ⟨_, hrender, happly⟩, hfilled⟩

end Target

namespace Sample

/-- A checkout that holds a schema. -/
def schemaCheckout : Checkout where
  files := [(["yogi-core", "src", "schemas", "event.schema.json"], .text "\x7b\x7d\n")]
  folders := []
  isTree := ⟨by decide +kernel, by decide +kernel, by decide +kernel, by simp, by decide +kernel⟩

theorem bare_schemaCheckout : Target.Bare ⟨"."⟩ .core schemaCheckout := by
  refine ⟨?_, ?_, ?_⟩
  · rw [Target.location_dot]
    rfl
  · intro names hnames
    have hfile : names = ["yogi-core", "src", "schemas", "event.schema.json"] := by
      simpa [Target.location_dot, schemaCheckout] using hnames
    refine ⟨rfl, "event.schema.json", ?_, by decide⟩
    rw [hfile, Target.schemaNames_eq]
    rfl
  · intro names hnames
    cases hnames

end Sample

/-- The first block of the build file is left out, and a schema is embedded. -/
theorem Target.scaffold_generate_core : ∃ edits scaffolded reports after,
    Target.core ∈ Target.standalone
      ∧ Target.Bare ⟨"."⟩ .core Sample.schemaCheckout
      ∧ Target.core.emitter.emit Sample.interface ⟨Sample.schemaCheckout, ⟨"."⟩⟩ = .ok edits
      ∧ Sample.interface.checkFlags = .ok ()
      ∧ (∀ edit ∈ edits, ∀ line ∈ edit.lines, Block.Unmarked line.toList)
      ∧ Block.Unmarked Sample.interface.copyright.toList
      ∧ (Scaffold.writeAll ⟨"."⟩ Target.core.emitter Sample.interface).run Sample.schemaCheckout =
        .ok () scaffolded
      ∧ (Generation.run [Target.core.emitter] Sample.interface ⟨"."⟩ Finisher.identity .write).run
        scaffolded = .ok reports after
      ∧ Scaffold.Filled ⟨"."⟩ edits after := by
  have hemit : Target.core.Emits Sample.schemaCheckout Sample.interface ⟨"."⟩ :=
    Target.emits_of_isOk (by decide +kernel)
  have hlines : ∀ edit ∈ Target.core.edits Sample.interface ⟨Sample.schemaCheckout, ⟨"."⟩⟩,
      ∀ line ∈ edit.lines, Block.Unmarked line.toList := by
    decide +kernel
  have hcopyright : Block.Unmarked Sample.interface.copyright.toList := by decide
  have htarget : Target.core ∈ Target.standalone := List.mem_cons_self
  obtain ⟨scaffolded, reports, after, hscaffold, hrun, hfilled⟩ :=
    Target.scaffold_generate htarget Sample.bare_schemaCheckout hemit rfl hlines hcopyright
  exact ⟨_, scaffolded, reports, after, htarget, Sample.bare_schemaCheckout, hemit, rfl, hlines,
    hcopyright, hscaffold, hrun, hfilled⟩

namespace Sample

/-- A description with a flag that is made of one that there is not. -/
def unresolvedFlag : String :=
"copyright = \"\"

[version]
major = 1
minor = 2
patch = 3

[constants]

[functions]

[enums]

[flags.events]
Both = \x7b combine = [\"Missing\"] \x7d

[type_mappings]
"

def unresolvedEvents : FlagSet := ⟨"events", none, [⟨"Both", "", .combine ["Missing"]⟩]⟩

set_option maxRecDepth 10000 in
theorem exists_unresolvedFlag : ∃ interface edits,
    Interface.load "core_api.toml" unresolvedFlag = .ok interface
      ∧ Target.dotnet.emitter.emit interface ⟨Checkout.empty, ⟨"."⟩⟩ = .ok edits
      ∧ (∀ edit ∈ edits, ∀ line ∈ edit.lines, Block.Unmarked line.toList)
      ∧ Block.Unmarked interface.copyright.toList ∧ interface.flagSets = [unresolvedEvents] := by
  obtain ⟨interface, hload, hok, hholds⟩ : ∃ interface,
      Interface.load "core_api.toml" unresolvedFlag = .ok interface
        ∧ (Target.dotnet.emitter.emit interface ⟨Checkout.empty, ⟨"."⟩⟩).isOk = true
        ∧ (∀ edit ∈ Target.dotnet.edits interface ⟨Checkout.empty, ⟨"."⟩⟩, ∀ line ∈ edit.lines,
          Block.Unmarked line.toList)
        ∧ Block.Unmarked interface.copyright.toList ∧ interface.flagSets = [unresolvedEvents] :=
    Interface.exists_load_of_described String.toList_ofList (by decide)
  exact ⟨interface, _, hload, Target.emits_of_isOk hok, hholds⟩

end Sample

/-- A flag that has no value does not keep an emitter from yielding its edits, but it stops a run before
any file is changed. -/
theorem Target.scaffold_generate_unresolved : ∃ interface edits scaffolded,
    Interface.load "core_api.toml" Sample.unresolvedFlag = .ok interface
      ∧ Target.dotnet.emitter.emit interface ⟨Checkout.empty, ⟨"."⟩⟩ = .ok edits
      ∧ (∀ edit ∈ edits, ∀ line ∈ edit.lines, Block.Unmarked line.toList)
      ∧ Block.Unmarked interface.copyright.toList
      ∧ (Scaffold.writeAll ⟨"."⟩ Target.dotnet.emitter interface).run Checkout.empty = .ok () scaffolded
      ∧ (Generation.run [Target.dotnet.emitter] interface ⟨"."⟩ Finisher.identity .write).run scaffolded =
        .error (.emit (.unresolvedFlag "events" "Both" "Missing")) scaffolded := by
  obtain ⟨interface, edits, hload, hemit, hlines, hcopyright, hsets⟩ := Sample.exists_unresolvedFlag
  obtain ⟨scaffolded, hscaffold, -⟩ := Target.exists_scaffolded (Target.bare_empty .dotnet) hemit
  have hrender (sources : Sources) : render [Target.dotnet.emitter] interface sources =
      .error (.unresolvedFlag "events" "Both" "Missing") := by
    unfold render Interface.checkFlags
    rw [hsets]
    rfl
  exact ⟨interface, edits, scaffolded, hload, hemit, hlines, hcopyright, hscaffold,
    run_of_render_eq_error (hrender _)⟩

end Bindery
