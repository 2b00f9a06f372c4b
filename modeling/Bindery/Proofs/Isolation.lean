import Bindery.Proofs.Comments

/-!
# Isolation

A run touches the bodies of the blocks that were rendered and the comments at the start of the files in
the folders of headers. Everything else of a checkout is kept: other files, other blocks, the lines with
the markers, and all text between the blocks.
-/

namespace Bindery

open Generation

/-- No line that a target's emitter yields for an interface and a checkout holds a marker. -/
def Target.Unmarked (interface : Interface) (sources : Sources) (target : Target) : Prop :=
  ∀ edits, target.emitter.emit interface sources = .ok edits →
    ∀ edit ∈ edits, ∀ line ∈ edit.lines, Block.Unmarked line.toList

namespace Request

/-- What a run over the requested targets may change of a checkout. -/
structure Isolated (request : Request) (interface : Interface) (before after : Checkout) : Prop where
  /-- a file that no target owns and of which none maintains the header is kept -/
  kept : ∀ location,
    (∀ target ∈ Target.select request.targets,
      ¬ target.Owns request.root location ∧ ¬ target.MaintainsHeader request.root location) →
    after.content? location = before.content? location
  /-- a file of which only the header is maintained has it renewed -/
  renewed : ∀ target ∈ Target.select request.targets, ∀ location,
    target.MaintainsHeader request.root location → ¬ target.Owns request.root location →
    (before.content? location = none ∧ after.content? location = none)
      ∨ ∃ text new, before.content? location = some (.text text)
        ∧ Header.renew? (Header.comment interface.copyright) text = some new
        ∧ after.content? location = some (.text new)
  /-- a file with blocks has its header renewed, if that is maintained, and then the bodies of the
  blocks that were rendered for it replaced -/
  respliced : ∀ target ∈ Target.select request.targets, ∃ edits,
    target.emitter.emit interface ⟨before, request.root⟩ = .ok edits
      ∧ (∀ edit ∈ edits, ∃ file ∈ target.emitter.files, edit.path = ⟨file⟩)
      ∧ ∀ file ∈ target.emitter.files,
        (∀ text, before.content? (request.root.join file).location = some (.text text) →
          ∃ renewed final,
            target.HeaderStep request.root interface.copyright (request.root.join file).location
                text renewed
              ∧ after.content? (request.root.join file).location = some (.text final)
              ∧ Layout.Respliced (FileEdits.blocksAt ⟨file⟩ edits) (Layout.ofText renewed.toList)
                (Layout.ofText final.toList))
        ∧ ((∀ text, before.content? (request.root.join file).location ≠ some (.text text)) →
          FileEdits.blocksAt ⟨file⟩ edits = []
            ∧ after.content? (request.root.join file).location =
              before.content? (request.root.join file).location)

variable {before after : Checkout} {interface : Interface} {launch : Formatter.Launcher}
  {request : Request} {generation : Generation}

/-- A run that writes without a formatter, and renders no line with a marker, replaces headers and
bodies of blocks and nothing else. -/
theorem run_isolated (hmode : request.mode = .write) (hformatter : request.formatter? = none)
    (hunmarked : ∀ target ∈ Target.select request.targets,
      target.Unmarked interface ⟨before, request.root⟩)
    (hrun : (request.run launch interface).run before = .ok generation after) :
    request.Isolated interface before after := by
  obtain ⟨htargets, hrevised⟩ := revised_of_run_eq_ok hformatter hmode hrun
  have hemit := fun target htarget => (htargets target htarget).1
  have hnodup := Target.nodup_select request.targets
  refine ⟨?_, ?_, ?_⟩
  · exact fun location hnone => content?_eq_of_forall_not hemit hrevised hnone
  · intro target htarget location hmaintains howns
    have hholds := hmaintains.holds
    cases hcontent : before.content? location with
    | none =>
        refine Or.inl ⟨rfl, ?_⟩
        rw [hrevised.content?_of_forall_ne_text (by simp [hcontent]), hcontent]
    | some content =>
        obtain ⟨text, htext⟩ := exists_text_of_maintainsHeader htarget hmaintains hrevised hcontent
        obtain ⟨new, final, hstep, hfinal, hafter⟩ :=
          exists_steps hemit hnodup htarget hholds hrevised htext
        -- no edit is one of this file, so the renewed text is the last one
        rw [Target.textAt_editRevisions_of_not_owns (hemit target htarget) howns] at hfinal
        obtain rfl := Except.ok.inj hfinal
        rcases hstep with ⟨-, hnew⟩ | ⟨hnot, -⟩
        · exact Or.inr ⟨text, new, hcontent.symm.trans htext, hnew, hafter⟩
        · exact absurd hmaintains hnot
  · intro target htarget
    refine ⟨_, hemit target htarget, ?_, ?_⟩
    · exact fun edit hedit => Target.path_of_mem_edits (hemit target htarget) hedit
    · intro file hfile
      have howns : target.Owns request.root (request.root.join file).location := ⟨file, hfile, rfl⟩
      have hlines := hunmarked target htarget _ (hemit target htarget)
      refine ⟨fun text htext => ?_, fun hnone => ⟨?_, hrevised.content?_of_forall_ne_text hnone⟩⟩
      · obtain ⟨renewed, final, hstep, hfinal, hafter⟩ :=
          exists_steps hemit hnodup htarget howns.holds hrevised htext
        rw [Target.textAt_editRevisions (hemit target htarget) hfile] at hfinal
        refine ⟨renewed, final, hstep, hafter, ?_⟩
        refine Block.respliced_of_spliceAll_eq_ok ?_
          (Target.nodup_blocksAt (hemit target htarget) ⟨file⟩) hfinal
        intro block hblock
        obtain ⟨edit, hedit, rfl⟩ := FileEdits.exists_edit_of_mem_blocksAt hblock
        exact hlines edit hedit
      -- an edit of the file would have had to read it
      · refine (Target.mem_ofEdits_or_blocksAt_eq_nil (hemit target htarget) hfile).resolve_left ?_
        rintro ⟨group, hgroup, hpath⟩
        obtain ⟨text, htext⟩ := exists_text_of_mem_ofEdits htarget hgroup hrevised
        rw [hpath] at htext
        exact hnone text htext

end Request

theorem Target.unmarked_of_edits {interface : Interface} {sources : Sources} {target : Target}
    (h : ∀ edit ∈ target.edits interface sources, ∀ line ∈ edit.lines, Block.Unmarked line.toList) :
    target.Unmarked interface sources := by
  intro edits hemit
  have hedits : target.edits interface sources = edits := by rw [Target.edits, hemit]
  rwa [← hedits]

namespace Target

variable {before : Checkout} {interface : Interface} {root : Path} {target : Target}

/-- A checkout has the files of a target and all the blocks of them that are rendered. -/
def HasBlocks (checkout : Checkout) (interface : Interface) (root : Path) (target : Target) : Prop :=
  ∀ group ∈ FileEdits.ofEdits (target.edits interface ⟨checkout, root⟩), ∃ text,
    checkout.content? (root.join group.path.text).location = some (.text text)
      ∧ ∀ block ∈ group.blocks, block.1 < Block.count text

/-- It is enough to compare the blocks that are rendered, file by file, with those that the files have. -/
theorem hasBlocks_of_map_ofEdits {checkout : Checkout} {blocks : List (Location × List Nat)}
    (hedits : (FileEdits.ofEdits (target.edits interface ⟨checkout, root⟩)).map (fun group =>
      ((root.join group.path.text).location, group.blocks.map Prod.fst)) = blocks)
    (htexts : ∀ entry ∈ blocks, ∃ text,
      checkout.content? entry.1 = some (.text text) ∧ ∀ index ∈ entry.2, index < Block.count text) :
    target.HasBlocks checkout interface root := by
  intro group hgroup
  obtain ⟨text, htext, hindices⟩ := htexts _ (hedits ▸ List.mem_map_of_mem hgroup)
  exact ⟨text, htext, List.forall_mem_map.mp hindices⟩

theorem Unmarked.blocksAt (hunmarked : target.Unmarked interface ⟨before, root⟩)
    (hemit : target.Emits before interface root) (path : Path) :
    ∀ block ∈ FileEdits.blocksAt path (target.edits interface ⟨before, root⟩),
      ∀ line ∈ block.2, Block.Unmarked line.toList := by
  intro block hblock
  obtain ⟨edit, hedit, rfl⟩ := FileEdits.exists_edit_of_mem_blocksAt hblock
  exact hunmarked _ hemit edit hedit

theorem Unmarked.blocks (hunmarked : target.Unmarked interface ⟨before, root⟩)
    (hemit : target.Emits before interface root) {group : FileEdits}
    (hgroup : group ∈ FileEdits.ofEdits (target.edits interface ⟨before, root⟩)) :
    ∀ block ∈ group.blocks, ∀ line ∈ block.2, Block.Unmarked line.toList := by
  rw [(FileEdits.grouped_ofEdits _).blocks group hgroup]
  exact hunmarked.blocksAt hemit group.path

/-- A target can edit its files exactly if they have the blocks. -/
theorem applies_editRevisions_iff (hunmarked : target.Unmarked interface ⟨before, root⟩)
    (hemit : target.Emits before interface root) :
    (∀ revision ∈ editRevisions root Finisher.identity (target.edits interface ⟨before, root⟩),
      revision.Applies before) ↔ target.HasBlocks before interface root := by
  rw [editRevisions, List.forall_mem_map, HasBlocks]
  refine forall₂_congr fun group hgroup => ?_
  have hlines := hunmarked.blocks hemit hgroup
  simp only [Revision.Applies, exists_and_left, FileEdits.revision, Work.finished_identity,
    Block.exists_spliceAll_eq_ok_iff hlines]
  rfl

end Target

namespace Sample

/-- An interface that has a version and nothing else. -/
def interface : Interface :=
  { copyright := "", version := ⟨1, 2, 3, "-rc"⟩, constants := [], functions := []
    enumerations := [], flagSets := [], types := [] }

/-- A text with one block. -/
def block : String := ":CODEGEN_BEGIN:\nold\n:CODEGEN_END:\n"

/-- Bindings for Python of which no block has been rendered yet, and a file beside them. -/
def checkout : Checkout where
  files :=
    [ (["yogi-python", "yogi", "_library.py"], .text (block ++ "by hand\n" ++ block)),
      (["yogi-python", "yogi", "_constants.py"], .text (block ++ block ++ block)),
      (["yogi-python", "yogi", "_version.py"], .text block),
      (["yogi-python", "test", "conftest.py"], .text block),
      (["yogi-python", "test", "common.py"], .text block),
      (["yogi-python", "conanfile.py"], .text block),
      (["notes.txt"], .text block) ]
  folders := []
  isTree := ⟨by decide +kernel, by decide +kernel, by decide +kernel, by simp, by decide +kernel⟩

/-- A request for the Python bindings. -/
def request : Request :=
  { targets := [.python], schema := ⟨"core_api.toml"⟩, root := ⟨"."⟩, mode := .write
    formatter? := none }

/-- No program is started. -/
def launch : Formatter.Launcher := fun _ => .notStarted ""

theorem unmarked :
    ∀ target ∈ Target.select request.targets, target.Unmarked interface ⟨checkout, request.root⟩ := by
  have hlines : ∀ target ∈ Target.select request.targets,
      ∀ edit ∈ target.edits interface ⟨checkout, request.root⟩, ∀ line ∈ edit.lines,
        Block.Unmarked line.toList := by
    decide
  exact fun target htarget => Target.unmarked_of_edits (hlines target htarget)

/-- The files of the Python bindings, with the blocks that are rendered for each. -/
def pythonBlocks : List (Location × List Nat) :=
  [ (["yogi-python", "yogi", "_library.py"], [0, 1]),
    (["yogi-python", "yogi", "_constants.py"], [0, 1]),
    (["yogi-python", "yogi", "_version.py"], [0]),
    (["yogi-python", "test", "conftest.py"], [0]),
    (["yogi-python", "test", "common.py"], [0]),
    (["yogi-python", "conanfile.py"], [0]) ]

theorem map_ofEdits_python :
    (FileEdits.ofEdits (Target.python.edits interface ⟨checkout, request.root⟩)).map (fun group =>
      ((request.root.join group.path.text).location, group.blocks.map Prod.fst)) = pythonBlocks := by
  decide +kernel

theorem exists_text_pythonBlocks : ∀ entry ∈ pythonBlocks, ∃ text,
    checkout.content? entry.1 = some (.text text) ∧ ∀ index ∈ entry.2, index < Block.count text := by
  have hchars : block.toList = _ := String.toList_ofList
  have hhand : "by hand\n".toList = _ := String.toList_ofList
  have hone : Block.count block = 1 := by
    rw [Block.count, hchars]
    decide +kernel
  have htwo : Block.count (block ++ "by hand\n" ++ block) = 2 := by
    rw [Block.count, String.toList_append, String.toList_append, hhand, hchars]
    decide +kernel
  have hthree : Block.count (block ++ block ++ block) = 3 := by
    rw [Block.count, String.toList_append, String.toList_append, hchars]
    decide +kernel
  simp only [pythonBlocks, List.forall_mem_cons]
  refine ⟨⟨_, rfl, ?_⟩, ⟨_, rfl, ?_⟩, ⟨_, rfl, ?_⟩, ⟨_, rfl, ?_⟩, ⟨_, rfl, ?_⟩, ⟨_, rfl, ?_⟩, ?_⟩
  · simp [htwo]
  · simp [hthree]
  · simp [hone]
  · simp [hone]
  · simp [hone]
  · simp [hone]
  · simp

/-- The bindings for Python can be edited in every checkout that has these files of them. -/
theorem applies_editRevisions_python {other : Checkout} (hemit : Target.python.Emits other interface request.root)
    (hedits : Target.python.edits interface ⟨other, request.root⟩ =
      Target.python.edits interface ⟨checkout, request.root⟩)
    (hfiles : ∀ entry ∈ pythonBlocks, other.content? entry.1 = checkout.content? entry.1) :
    ∀ revision ∈ editRevisions request.root Finisher.identity
      (Target.python.edits interface ⟨other, request.root⟩), revision.Applies other := by
  have hsample : Target.python.Emits checkout interface request.root :=
    Target.emits_of_isOk (by decide +kernel)
  have hunmarked : Target.python.Unmarked interface ⟨other, request.root⟩ := by
    apply Target.unmarked_of_edits
    rw [hedits]
    exact unmarked .python (by decide) _ hsample
  refine (Target.applies_editRevisions_iff hunmarked hemit).mpr ?_
  refine Target.hasBlocks_of_map_ofEdits (hedits ▸ map_ofEdits_python) fun entry hentry => ?_
  rw [hfiles entry hentry]
  exact exists_text_pythonBlocks entry hentry

theorem exists_run :
    ∃ generation after, (request.run launch interface).run checkout = .ok generation after := by
  have hselect : Target.select request.targets = [.python] := by decide
  have hemit : Target.python.Emits checkout interface request.root := Target.emits_of_isOk (by decide +kernel)
  obtain ⟨after, hafter⟩ := Revised.exists_of_applies (Target.nodup_locations_editRevisions hemit)
    (applies_editRevisions_python hemit rfl fun _ _ => rfl)
  have hentered : ∀ target ∈ Target.select request.targets,
      Entered checkout request.root target.emitter.headerFolders := by
    unfold Entered
    decide
  refine ⟨_, after, (Request.run_eq_ok_iff_performed rfl).mpr ⟨rfl, ?_, hentered, ?_, rfl⟩⟩
  · rw [hselect]
    exact List.forall_mem_singleton.mpr hemit
  · have hheaders : headerRevisions checkout request.root interface.copyright
        Target.python.emitter.headerFolders = [] := rfl
    rw [hselect, List.flatMap_singleton, Target.revisions, hheaders, List.nil_append]
    exact hafter

/-- A mock library of which headers and blocks are out of date. It has a default that is written by hand,
and a header without blocks. -/
def mockFiles : List (Location × Content) :=
  [ (["yogi-core-mock", "CMakeLists.txt"], .text block),
    (["yogi-core-mock", "conanfile.py"], .text block),
    (["yogi-core-mock", "include", "yogi_core_mock.h"], .text ("/* old */\n" ++ block)),
    (["yogi-core-mock", "src", "default_functions.h"],
      .text ("/* old */\n" ++ (block ++ "int default_Get() \x7b return 0; \x7d\n" ++ block))),
    (["yogi-core-mock", "src", "yogi_core_mock.cc"], .text ("/* old */\n" ++ (block ++ block))),
    (["yogi-core-mock", "test", "helpers.h"], .text ("/* old */\n" ++ "int helper();\n")) ]

/-- The mock library, with a file beside it. -/
def mocked : Checkout where
  files := mockFiles ++ [(["notes.txt"], .text block)]
  folders := []
  isTree := ⟨by decide +kernel, by decide +kernel, by decide +kernel, by simp, by decide +kernel⟩

/-- The files of the mock library in which blocks are rendered, with these. -/
def mockBlocks : List (Location × List Nat) :=
  [ (["yogi-core-mock", "src", "default_functions.h"], [0, 1]),
    (["yogi-core-mock", "include", "yogi_core_mock.h"], [0]),
    (["yogi-core-mock", "src", "yogi_core_mock.cc"], [0, 1]),
    (["yogi-core-mock", "CMakeLists.txt"], [0]),
    (["yogi-core-mock", "conanfile.py"], [0]) ]

/-- The files of the mock library of which the headers are maintained. -/
def mockHeaders : List Path :=
  [⟨"./yogi-core-mock/include/yogi_core_mock.h"⟩, ⟨"./yogi-core-mock/src/default_functions.h"⟩,
    ⟨"./yogi-core-mock/src/yogi_core_mock.cc"⟩, ⟨"./yogi-core-mock/test/helpers.h"⟩]

section Mock

theorem exists_text_mockBlocks : ∀ entry ∈ mockBlocks, ∃ text,
    mocked.content? entry.1 = some (.text text) ∧ ∀ index ∈ entry.2, index < Block.count text := by
  have hchars : block.toList = _ := String.toList_ofList
  have hold : "/* old */\n".toList = _ := String.toList_ofList
  have hdefault : "int default_Get() \x7b return 0; \x7d\n".toList = _ := String.toList_ofList
  have hplain : Block.count block = 1 := by
    rw [Block.count, hchars]
    decide +kernel
  have hone : Block.count ("/* old */\n" ++ block) = 1 := by
    rw [Block.count, String.toList_append, hold, hchars]
    decide +kernel
  have htwo : Block.count ("/* old */\n" ++ (block ++ block)) = 2 := by
    rw [Block.count, String.toList_append, String.toList_append, hold, hchars]
    decide +kernel
  have hdefaults : Block.count ("/* old */\n" ++
      (block ++ "int default_Get() \x7b return 0; \x7d\n" ++ block)) = 2 := by
    rw [Block.count, String.toList_append, String.toList_append, String.toList_append, hold, hdefault, hchars]
    decide +kernel
  simp only [mockBlocks, List.forall_mem_cons]
  refine ⟨⟨_, rfl, ?_⟩, ⟨_, rfl, ?_⟩, ⟨_, rfl, ?_⟩, ⟨_, rfl, ?_⟩, ⟨_, rfl, ?_⟩, ?_⟩
  · simp [hdefaults]
  · simp [hone]
  · simp [htwo]
  · simp [hplain]
  · simp [hplain]
  · simp

theorem exists_renew?_old (header rest : String) :
    ∃ new, Header.renew? header ("/* old */\n" ++ rest) = some new := by
  have hold : "/* old */\n".toList = _ := String.toList_ofList
  rw [Header.renew?, String.toList_append, hold]
  exact ⟨_, rfl⟩

theorem exists_text_mockHeaders : ∀ path ∈ mockHeaders, ∃ rest,
    mocked.content? path.location = some (.text ("/* old */\n" ++ rest)) := by
  simp only [mockHeaders, List.forall_mem_cons]
  exact ⟨⟨_, rfl⟩, ⟨_, rfl⟩, ⟨_, rfl⟩, ⟨_, rfl⟩, by simp⟩

variable {checkout : Checkout} {interface : Interface}
  (hbelow : checkout.below (request.root.join MockLibrary.folder).location =
    mocked.below (request.root.join MockLibrary.folder).location)
include hbelow

/-- The headers of the mock library are found in every checkout that has its files. -/
theorem headerRevisions_mock (copyright : String) :
    headerRevisions checkout request.root copyright Target.mock.emitter.headerFolders =
      mockHeaders.map (Header.renewal (Header.comment copyright)) := by
  have hsorted : (mocked.below (request.root.join MockLibrary.folder).location).Pairwise
      fun location other => Header.before location other := by
    decide
  have hfiles : Header.filesBelow checkout (request.root.join MockLibrary.folder)
      (request.root.join MockLibrary.folder).location headerExtensions = mockHeaders := by
    rw [Header.filesBelow, hbelow, List.mergeSort_of_pairwise hsorted]
    decide
  change headerRevisions checkout request.root copyright [MockLibrary.folder] = _
  rw [headerRevisions, List.flatMap_singleton, Header.renewals, hfiles]

/-- The mock library can be revised in every checkout that has its files. -/
theorem applies_revisions_mock (hemit : Target.mock.Emits checkout interface request.root)
    (hunmarked : Target.mock.Unmarked interface ⟨checkout, request.root⟩)
    (hfiles : ∀ location ∈ mockFiles.map Prod.fst, checkout.content? location = mocked.content? location)
    (hblocks : (FileEdits.ofEdits (Target.mock.edits interface ⟨checkout, request.root⟩)).map (fun group =>
      ((request.root.join group.path.text).location, group.blocks.map Prod.fst)) = mockBlocks) :
    ∀ revision ∈ Target.mock.revisions checkout interface request.root, revision.Applies checkout := by
  rw [Target.revisions, headerRevisions_mock hbelow]
  refine List.forall_mem_append.mpr ⟨List.forall_mem_map.mpr fun path hpath => ?_, ?_⟩
  · obtain ⟨rest, hrest⟩ := exists_text_mockHeaders path hpath
    obtain ⟨new, hnew⟩ := exists_renew?_old (Header.comment interface.copyright) rest
    have hmem : ∀ path ∈ mockHeaders, path.location ∈ mockFiles.map Prod.fst := by decide
    exact ⟨_, new, (hfiles _ (hmem path hpath)).trans hrest, Header.renewal_change_eq_ok_iff.mpr hnew⟩
  · refine (Target.applies_editRevisions_iff hunmarked hemit).mpr ?_
    have hlocations : ∀ entry ∈ mockBlocks, entry.1 ∈ mockFiles.map Prod.fst := by decide
    refine Target.hasBlocks_of_map_ofEdits hblocks fun entry hentry => ?_
    rw [hfiles _ (hlocations entry hentry)]
    exact exists_text_mockBlocks entry hentry

end Mock

/-- An interface with a copyright text and a function that has a default in the mock library. -/
def callable : Interface where
  copyright := "new"
  version := ⟨1, 2, 3, "-rc"⟩
  constants := []
  functions := [⟨"YOGI_Get", "int", []⟩]
  enumerations := []
  flagSets := []
  types := [("int", ⟨some "int", some "int", some "int", some "c_int"⟩)]

/-- A request for the mock library. -/
def mockRequest : Request := { request with targets := [.mock] }

theorem select_mockRequest : Target.select mockRequest.targets = [.mock] := by decide

theorem emits_mocked : Target.mock.Emits mocked callable mockRequest.root :=
  Target.emits_of_isOk (by decide +kernel)

theorem unmarked_mocked : ∀ target ∈ Target.select mockRequest.targets,
    target.Unmarked callable ⟨mocked, mockRequest.root⟩ := by
  have hlines : ∀ edit ∈ Target.mock.edits callable ⟨mocked, mockRequest.root⟩, ∀ line ∈ edit.lines,
      Block.Unmarked line.toList := by
    decide +kernel
  rw [select_mockRequest]
  exact List.forall_mem_singleton.mpr (Target.unmarked_of_edits hlines)

theorem exists_run_mocked :
    ∃ generation after, (mockRequest.run launch callable).run mocked = .ok generation after := by
  have hcomments : mocked.CommentsUnmarked := Checkout.commentsUnmarked_of_all (by decide +kernel)
  have hentered : ∀ target ∈ Target.select mockRequest.targets,
      Entered mocked mockRequest.root target.emitter.headerFolders := by
    unfold Entered
    decide
  have hblocks : (FileEdits.ofEdits (Target.mock.edits callable ⟨mocked, request.root⟩)).map (fun group =>
      ((request.root.join group.path.text).location, group.blocks.map Prod.fst)) = mockBlocks := by
    decide +kernel
  refine Request.exists_run_of_applies rfl rfl (by decide) hcomments rfl ?_ hentered ?_
  · rw [select_mockRequest]
    exact List.forall_mem_singleton.mpr emits_mocked
  · rw [select_mockRequest]
    refine List.forall_mem_singleton.mpr (applies_revisions_mock rfl emits_mocked ?_ (fun _ _ => rfl) hblocks)
    exact unmarked_mocked .mock (by decide)

end Sample

/-- A run over a mock library keeps the default that is written by hand, and renews the comment of the header
that has no blocks. -/
theorem Request.run_isolated_mock : ∃ generation after,
    (Sample.mockRequest.run Sample.launch Sample.callable).run Sample.mocked = .ok generation after
      ∧ (∀ target ∈ Target.select Sample.mockRequest.targets,
        target.Unmarked Sample.callable ⟨Sample.mocked, Sample.mockRequest.root⟩)
      ∧ Sample.mockRequest.Isolated Sample.callable Sample.mocked after := by
  obtain ⟨generation, after, hrun⟩ := Sample.exists_run_mocked
  exact ⟨generation, after, hrun, Sample.unmarked_mocked,
    Request.run_isolated rfl rfl Sample.unmarked_mocked hrun⟩

end Bindery
