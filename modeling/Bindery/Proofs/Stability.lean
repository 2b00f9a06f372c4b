import Bindery.Proofs.Prediction
import Bindery.Proofs.RenderedFunctions
import Bindery.Proofs.Rendering

/-!
# Stable blocks

When no free text of a description, and none that a target reads from the checkout, has a marker, no line
that is rendered has one. Setting such lines into blocks keeps all lines with markers in their order, so an
index is that of the same block after any number of splices and runs. A free text with a marker is carried
into the lines, where it takes blocks away.
-/

namespace Bindery

open Block Text

namespace Sheet

variable {sheet : Sheet} {sheets : List Sheet} {edits : List Edit} {path : String}

/-- No line of the blocks of a sheet has a marker. -/
def Unmarked (sheet : Sheet) : Prop :=
  ∀ blocks, sheet.blocks = .ok blocks → ∀ block ∈ blocks, AllUnmarked block

theorem unmarked_single {lines : List String} (h : AllUnmarked lines) : (single path lines).Unmarked := by
  intro blocks hblocks
  cases hblocks
  exact List.forall_mem_singleton.mpr h

theorem Unmarked.startingAt (h : sheet.Unmarked) (first : Nat) : { sheet with first }.Unmarked := h

theorem unmarked_ofBlocks_ok {blocks : List (List String)} (h : ∀ block ∈ blocks, AllUnmarked block) :
    (ofBlocks path (.ok blocks)).Unmarked := by
  intro found hfound
  cases hfound
  exact h

theorem unmarked_rendered {rendered : Except EmitError (List String)}
    (h : ∀ lines, rendered = .ok lines → AllUnmarked lines) :
    (ofBlocks path (do return [← rendered])).Unmarked := by
  intro blocks hblocks
  obtain ⟨lines, hlines, hblocks⟩ := except_bind_eq_ok_iff.mp hblocks
  cases hblocks
  exact List.forall_mem_singleton.mpr (h lines hlines)

theorem allUnmarked_of_mem_allEdits (h : ∀ sheet ∈ sheets, sheet.Unmarked)
    (hedits : allEdits sheets = .ok edits) : ∀ edit ∈ edits, AllUnmarked edit.lines := by
  induction sheets generalizing edits with
  | nil =>
      cases hedits
      exact List.forall_mem_nil _
  | cons sheet rest ih =>
      obtain ⟨hsheet, hrest⟩ := List.forall_mem_cons.mp h
      obtain ⟨own, others, hown, hothers, rfl⟩ := allEdits_cons_eq_ok_iff.mp hedits
      refine List.forall_mem_append.mpr ⟨?_, ih hrest hothers⟩
      obtain ⟨blocks, hblocks, rfl⟩ := edits_eq_ok_iff.mp hown
      refine List.forall_mem_map.mpr fun entry hentry => ?_
      exact hsheet blocks hblocks entry.1 (List.fst_mem_of_mem_zipIdx hentry)

end Sheet

namespace Target

/-- The texts of a checkout that a target puts into its lines: the schemas that are embedded, and the names
of the headers that are included. -/
def texts (sources : Sources) : Target → List String
  | core => ((CoreLibrary.schemas sources).toOption.getD []).flatMap Schema.texts
  | cpp => (sources.fileNames CppBindings.headerFolder ".h").toOption.getD []
  | mock | dotnet | python => []

end Target

section Sheets

variable {interface : Interface} (h : interface.MarkerFree)
include h

theorem CoreLibrary.allUnmarked_headerBlocks {blocks : List (List String)}
    (hblocks : headerBlocks interface = .ok blocks) : ∀ block ∈ blocks, AllUnmarked block := by
  obtain ⟨functions, hfunctions, hblocks⟩ := except_bind_eq_ok_iff.mp hblocks
  cases hblocks
  have hlines : AllUnmarked functions := forall_mem_of_mapM hfunctions fun function hmem _ =>
    (h.functions function hmem).headerLine h.types
  simp only [List.forall_mem_cons]
  exact ⟨Version.allUnmarked_headerDefines h.version, Constant.allUnmarked_idLines h.constants,
    Enumeration.allUnmarked_headerLines h.enumerations, FlagSet.allUnmarked_headerLines h.flagSets, hlines,
    List.forall_mem_nil _⟩

theorem CoreLibrary.unmarked_sheets {schemas : List Schema}
    (hschemas : ∀ schema ∈ schemas, AllUnmarked schema.texts) :
    ∀ sheet ∈ sheets interface schemas, sheet.Unmarked := by
  simp only [sheets, List.forall_mem_cons]
  refine ⟨fun _ => allUnmarked_headerBlocks h,
    Sheet.unmarked_rendered fun _ => Constant.allUnmarked_definitions h.constants,
    Sheet.unmarked_rendered fun _ hlines => forall_mem_of_mapM hlines fun constant hmem _ =>
      (h.constants constant hmem).readingCase,
    Sheet.unmarked_single (allUnmarked_map.mpr fun constant hmem => (h.constants constant hmem).comparison),
    Sheet.unmarked_single (Enumeration.allUnmarked_errorCases h.enumerations),
    Sheet.unmarked_single (Enumeration.allUnmarked_lastErrorLines h.enumerations),
    Sheet.unmarked_single (Schema.allUnmarked_declarations hschemas),
    Sheet.unmarked_ofBlocks_ok (List.forall_mem_cons.mpr ⟨Schema.allUnmarked_cases hschemas,
      List.forall_mem_singleton.mpr (Schema.allUnmarked_definitions hschemas)⟩),
    Sheet.Unmarked.startingAt (Sheet.unmarked_single (Version.allUnmarked_buildLines h.version)) 1,
    Sheet.unmarked_single (Version.allUnmarked_recipeLines h.version), List.forall_mem_nil _⟩

theorem MockLibrary.unmarked_sheets (defaults : String) :
    ∀ sheet ∈ sheets interface defaults, sheet.Unmarked := by
  simp only [sheets, List.forall_mem_cons]
  refine ⟨fun blocks hblocks => ?_,
    Sheet.unmarked_single (allUnmarked_map.mpr fun function hmem => (h.functions function hmem).installerLine),
    fun _ => Function.allUnmarked_mockBlocks h.functions h.types,
    Sheet.unmarked_single (Version.allUnmarked_mockBuildLines h.version),
    Sheet.unmarked_single (Version.allUnmarked_recipeLines h.version), List.forall_mem_nil _⟩
  obtain ⟨cases, hcases, hblocks⟩ := except_bind_eq_ok_iff.mp hblocks
  cases hblocks
  refine List.forall_mem_cons.mpr ⟨Version.allUnmarked_mockReturnLines h.version,
    List.forall_mem_singleton.mpr ?_⟩
  exact forall_mem_of_mapM hcases fun constant hmem _ => (h.constants constant hmem).mockCase h.version

theorem CppBindings.unmarked_sheets {headers : List String} (hheaders : AllUnmarked headers) :
    ∀ sheet ∈ sheets interface headers, sheet.Unmarked := by
  have henumerations : ∀ block ∈ enumerationBlocks interface, AllUnmarked block := by
    refine List.forall_mem_append.mpr ⟨?_, List.forall_mem_map.mpr fun set hset => (h.flagSets set hset).cppLines⟩
    intro block hblock
    obtain ⟨enumeration, hmem, hblock⟩ := List.mem_flatMap.mp hblock
    rcases List.mem_pair.mp hblock with rfl | rfl
    · exact Enumeration.allUnmarked_cppMembers (h.enumerations enumeration hmem)
    · exact enumeration.allUnmarked_cppCases
  simp only [sheets, List.forall_mem_cons]
  refine ⟨Sheet.unmarked_single (allUnmarked_map.mpr fun header hheader => ?_),
    Sheet.unmarked_rendered fun _ => Function.allUnmarked_cppLines h.functions h.types,
    Sheet.unmarked_single (Version.allUnmarked_cppLibraryLines h.version),
    fun _ => Constant.allUnmarked_cppBlocks h.constants,
    Sheet.unmarked_single (Version.allUnmarked_bindingLines h.version),
    Sheet.unmarked_ofBlocks_ok henumerations,
    Sheet.unmarked_rendered fun _ hlines => forall_mem_of_mapM hlines fun function hmem _ =>
      (h.functions function hmem).cppInstaller h.types,
    fun blocks hblocks => ?_,
    Sheet.unmarked_single (Version.allUnmarked_recipeLines h.version), List.forall_mem_nil _⟩
  · exact (((closed_literal rfl).free (hheaders header hheader)).fence rfl).unmarked
  · obtain ⟨groups, hgroups, hblocks⟩ := except_bind_eq_ok_iff.mp hblocks
    cases hblocks
    refine List.forall_mem_singleton.mpr (allUnmarked_flatten ?_)
    exact forall_mem_of_mapM hgroups fun function hmem _ => (h.functions function hmem).cppInstallerLoader h.types

theorem DotnetBindings.unmarked_sheets : ∀ sheet ∈ sheets interface, sheet.Unmarked := by
  have henumerations : ∀ block ∈ enumerationBlocks interface, AllUnmarked block :=
    List.forall_mem_append.mpr
      ⟨List.forall_mem_map.mpr fun enumeration hmem =>
        Enumeration.allUnmarked_csharpMembers (h.enumerations enumeration hmem),
      List.forall_mem_map.mpr fun set hset => (h.flagSets set hset).csharpLines⟩
  simp only [sheets, List.forall_mem_cons]
  exact ⟨Sheet.unmarked_single (Version.allUnmarked_csharpLibraryLines h.version),
    Sheet.unmarked_single (Version.allUnmarked_csharpLines h.version),
    Sheet.unmarked_single (Version.allUnmarked_csharpProjectLines h.version),
    fun _ => Constant.allUnmarked_csharpBlocks h.constants, Sheet.unmarked_ofBlocks_ok henumerations,
    Sheet.unmarked_rendered fun _ => Function.allUnmarked_csharpLines h.functions h.types,
    Sheet.unmarked_rendered fun _ => Function.allUnmarked_csharpInstallers h.functions h.types,
    Sheet.unmarked_single (Version.allUnmarked_recipeLines h.version), List.forall_mem_nil _⟩

theorem PythonBindings.unmarked_sheets : ∀ sheet ∈ sheets interface, sheet.Unmarked := by
  have hinstallers {keepalive : String} (hkeepalive : Closed keepalive) (lines : List String)
      (hlines : Function.pythonInstallers interface keepalive = .ok lines) : AllUnmarked lines :=
    Function.allUnmarked_pythonInstallers h.functions h.types hkeepalive hlines
  simp only [sheets, List.forall_mem_cons]
  refine ⟨fun blocks hblocks => ?_, fun blocks hblocks => ?_,
    fun _ => Constant.allUnmarked_pythonBlocks h.constants,
    Sheet.unmarked_single (Version.allUnmarked_pythonLines h.version),
    Sheet.unmarked_rendered (hinstallers (closed_literal rfl)),
    Sheet.unmarked_rendered (hinstallers (closed_literal rfl)),
    Sheet.unmarked_single (Version.allUnmarked_recipeLines h.version), List.forall_mem_nil _⟩
  · obtain ⟨lines, hlines, hblocks⟩ := except_bind_eq_ok_iff.mp hblocks
    cases hblocks
    exact List.forall_mem_cons.mpr ⟨Version.allUnmarked_pythonLibraryLines h.version,
      List.forall_mem_singleton.mpr (Function.allUnmarked_pythonLines h.functions h.types hlines)⟩
  · obtain ⟨flagSets, hflagSets, hblocks⟩ := except_bind_eq_ok_iff.mp hblocks
    cases hblocks
    refine List.forall_mem_append.mpr ⟨List.forall_mem_map.mpr fun enumeration hmem =>
      Enumeration.allUnmarked_pythonMembers (h.enumerations enumeration hmem), ?_⟩
    exact forall_mem_of_mapM hflagSets fun set hset _ => (h.flagSets set hset).pythonLines

end Sheets

/-- No line that a target yields has a marker when no text that goes into it has one. -/
theorem Target.unmarked_of_texts {interface : Interface} {sources : Sources} {target : Target}
    (hinterface : interface.MarkerFree) (htexts : AllUnmarked (target.texts sources)) :
    target.Unmarked interface sources := by
  intro edits hemit
  cases target with
  | core =>
      obtain ⟨schemas, hschemas, hemit⟩ := except_bind_eq_ok_iff.mp hemit
      rw [texts, hschemas] at htexts
      exact Sheet.allUnmarked_of_mem_allEdits
        (CoreLibrary.unmarked_sheets hinterface (allUnmarked_flatMap.mp htexts)) hemit
  | mock =>
      obtain ⟨defaults, -, hemit⟩ := except_bind_eq_ok_iff.mp hemit
      exact Sheet.allUnmarked_of_mem_allEdits (MockLibrary.unmarked_sheets hinterface defaults) hemit
  | cpp =>
      obtain ⟨headers, hheaders, hemit⟩ := except_bind_eq_ok_iff.mp hemit
      rw [texts, hheaders] at htexts
      exact Sheet.allUnmarked_of_mem_allEdits (CppBindings.unmarked_sheets hinterface htexts) hemit
  | dotnet => exact Sheet.allUnmarked_of_mem_allEdits (DotnetBindings.unmarked_sheets hinterface) hemit
  | python => exact Sheet.allUnmarked_of_mem_allEdits (PythonBindings.unmarked_sheets hinterface) hemit

namespace Block

variable {path : Path} {text other result : String} {blocks : List (Nat × List String)}

/-- The search finds the same blocks in two texts, but for their bodies, and the same text behind them. -/
structure SameFrames (text other : String) : Prop where
  frames : (Layout.ofText other.toList).blocks.map (fun block => (block.opening, block.closing)) =
    (Layout.ofText text.toList).blocks.map fun block => (block.opening, block.closing)
  rest : (Layout.ofText other.toList).rest = (Layout.ofText text.toList).rest

theorem SameFrames.count_eq (h : SameFrames text other) : count other = count text := by
  have hlength := congrArg List.length h.frames
  rwa [List.length_map, List.length_map] at hlength

theorem sameFrames_of_spliceAll_eq_ok (hlines : ∀ block ∈ blocks, AllUnmarked block.2)
    (h : spliceAll path text blocks = .ok result) : SameFrames text result := by
  have hlayout := ofText_of_spliceAll_eq_ok hlines h
  refine ⟨?_, ?_⟩
  · rw [hlayout, Layout.frames_setBodies]
  · rw [hlayout, Layout.rest_setBodies]

theorem SameBehind.count_eq (h : SameBehind text other) : count other = count text := by
  obtain ⟨front, front', rest, rfl, rfl, hfront, hfront'⟩ := h
  simp only [count, String.toList_append]
  rw [Layout.ofText_append hfront, Layout.ofText_append hfront', Layout.length_blocks_behind,
    Layout.length_blocks_behind]

end Block

section Runs

variable {before after : Checkout} {interface : Interface} {launch : Formatter.Launcher}
  {request : Request} {generation : Generation} {location : Location} {text : String}

/-- A run changes a file at most up to its first block, where the comment is, and in the bodies of its
blocks. -/
theorem Request.exists_sameFrames (hmode : request.mode = .write) (hformatter : request.formatter? = none)
    (hunmarked : ∀ target ∈ Target.select request.targets,
      target.Unmarked interface ⟨before, request.root⟩)
    (hcopyright : Block.Unmarked interface.copyright.toList) (hcomments : before.CommentsUnmarked)
    (hrun : (request.run launch interface).run before = .ok generation after)
    (htext : before.content? location = some (.text text)) :
    ∃ renewed final, SameBehind text renewed ∧ SameFrames renewed final
      ∧ after.content? location = some (.text final) := by
  obtain ⟨htargets, hrevised⟩ := revised_of_run_eq_ok hformatter hmode hrun
  have hemit := fun target htarget => (htargets target htarget).1
  by_cases hheld : ∃ target ∈ Target.select request.targets, target.Holds request.root location
  · obtain ⟨target, htarget, hholds⟩ := hheld
    obtain ⟨renewed, final, hstep, hfinal, hafter⟩ := Generation.exists_steps hemit
      (Target.nodup_select request.targets) htarget hholds hrevised htext
    refine ⟨renewed, final, Target.sameBehind_of_headerStep hcopyright hcomments htext hstep, ?_, hafter⟩
    by_cases howns : target.Owns request.root location
    · obtain ⟨file, hfile, hlocation⟩ := howns
      rw [hlocation, Target.textAt_editRevisions (hemit target htarget) hfile] at hfinal
      have hlines := (hunmarked target htarget).blocksAt (hemit target htarget) ⟨file⟩
      exact sameFrames_of_spliceAll_eq_ok hlines hfinal
    · rw [Target.textAt_editRevisions_of_not_owns (hemit target htarget) howns] at hfinal
      obtain rfl := Except.ok.inj hfinal
      exact ⟨rfl, rfl⟩
  · refine ⟨text, text, .refl text, ⟨rfl, rfl⟩, ?_⟩
    rw [← htext]
    refine Generation.content?_eq_of_forall_not hemit hrevised fun target htarget => ?_
    have hnot : ¬ target.Holds request.root location := fun hholds => hheld ⟨target, htarget, hholds⟩
    exact ⟨fun howns => hnot howns.holds, fun hmaintains => hnot hmaintains.holds⟩

end Runs

namespace Request

/-- What the requested targets render keeps the blocks of every text, and so do runs. -/
structure Stable (request : Request) (interface : Interface) (before : Checkout) : Prop where
  /-- no line that is rendered holds a marker -/
  unmarked : ∀ target ∈ Target.select request.targets,
    target.Unmarked interface ⟨before, request.root⟩
  /-- lines that were rendered can be set into blocks in any order exactly if there are such blocks; they
  replace nothing but bodies, and can be set again -/
  spliced : ∀ target ∈ Target.select request.targets, ∀ edits,
    target.emitter.emit interface ⟨before, request.root⟩ = .ok edits →
      ∀ blocks : List (Nat × List String), (∀ block ∈ blocks, ∃ edit ∈ edits, edit.lines = block.2) →
        ∀ path text,
          ((∃ result, spliceAll path text blocks = .ok result) ↔ ∀ block ∈ blocks, block.1 < count text)
            ∧ ∀ result, spliceAll path text blocks = .ok result →
              SameFrames text result ∧ count result = count text ∧ spliceAll path result blocks = .ok result
  /-- a run that writes without a formatter keeps the blocks of every file, when the comments at the start
  of files hold no marker -/
  run : request.mode = .write → request.formatter? = none →
    Block.Unmarked interface.copyright.toList → before.CommentsUnmarked →
      ∀ launch generation after, (request.run launch interface).run before = .ok generation after →
        ∀ location text, before.content? location = some (.text text) →
          ∃ renewed final, SameBehind text renewed ∧ SameFrames renewed final ∧ count final = count text
            ∧ after.content? location = some (.text final)

variable {before : Checkout} {interface : Interface} {request : Request} {file source : String}

/-- The blocks of a checkout are stable when neither a free text of the description, nor a text that is put
into lines from the checkout, has a marker. -/
theorem stable_of_texts (hload : Interface.load file source = .ok interface)
    (htexts : AllUnmarked interface.texts)
    (hsources : ∀ target ∈ Target.select request.targets,
      AllUnmarked (target.texts ⟨before, request.root⟩)) :
    request.Stable interface before := by
  have hinterface := Interface.markerFree_of_load hload htexts
  have hunmarked : ∀ target ∈ Target.select request.targets,
      target.Unmarked interface ⟨before, request.root⟩ :=
    fun target htarget => Target.unmarked_of_texts hinterface (hsources target htarget)
  refine ⟨hunmarked, ?_, ?_⟩
  · intro target htarget edits hemit blocks hblocks path text
    have hlines : ∀ block ∈ blocks, AllUnmarked block.2 := by
      intro block hblock
      obtain ⟨edit, hedit, heq⟩ := hblocks block hblock
      rw [← heq]
      exact hunmarked target htarget edits hemit edit hedit
    refine ⟨⟨fun ⟨result, hresult⟩ => ((spliceAll_eq_ok_iff hlines).mp hresult).1, fun hindices => ?_⟩, ?_⟩
    · exact ⟨_, (spliceAll_eq_ok_iff hlines).mpr ⟨hindices, String.toList_ofList⟩⟩
    · intro result hresult
      have hframes := sameFrames_of_spliceAll_eq_ok hlines hresult
      exact ⟨hframes, hframes.count_eq, spliceAll_of_spliceAll_eq_ok hlines hresult⟩
  · intro hmode hformatter hcopyright hcomments launch generation after hrun location text htext
    obtain ⟨renewed, final, hbehind, hframes, hafter⟩ :=
      exists_sameFrames hmode hformatter hunmarked hcopyright hcomments hrun htext
    exact ⟨renewed, final, hbehind, hframes, hframes.count_eq.trans hbehind.count_eq, hafter⟩

end Request

namespace Sample

/-- A description of which the texts hold parts of markers. -/
def partsOfMarkers : String :=
"copyright = \"\"

[version]
major = 1
minor = 2
patch = 3
suffix = \"-rc\"

[constants.Greeting]
value = \":CODEGEN_BEGIN\"
help = \"CODEGEN_END:\"
type = \x7b c = \"const char*\", py = \"c_char_p\" \x7d

[functions]

[enums]

[flags]

[type_mappings]
"

set_option maxRecDepth 10000 in
theorem exists_partsOfMarkers : ∃ interface,
    Interface.load "core_api.toml" partsOfMarkers = .ok interface ∧ AllUnmarked interface.texts :=
  Interface.exists_load_of_described String.toList_ofList (by decide)

end Sample

/-- Texts that hold parts of markers keep the blocks of the bindings for Python. -/
theorem Request.stable_of_texts_python : ∃ interface,
    Interface.load "core_api.toml" Sample.partsOfMarkers = .ok interface
      ∧ AllUnmarked interface.texts
      ∧ (∀ target ∈ Target.select Sample.request.targets,
        AllUnmarked (target.texts ⟨Sample.checkout, Sample.request.root⟩))
      ∧ Sample.request.Stable interface Sample.checkout := by
  obtain ⟨interface, hload, htexts⟩ := Sample.exists_partsOfMarkers
  have hselect : Target.select Sample.request.targets = [.python] := by decide
  have hsources : ∀ target ∈ Target.select Sample.request.targets,
      AllUnmarked (target.texts ⟨Sample.checkout, Sample.request.root⟩) := by
    rw [hselect]
    exact List.forall_mem_singleton.mpr .nil
  exact ⟨interface, hload, htexts, hsources, Request.stable_of_texts hload htexts hsources⟩

namespace Sample

/-- A description with a help text that holds a marker. -/
def markedHelp : String :=
"copyright = \"\"

[version]
major = 1
minor = 2
patch = 3

[constants]

[functions]

[enums.level]
Low = \":CODEGEN_BEGIN:\"

[flags]

[type_mappings]
"

/-- The line that is rendered for the member in Python. -/
def markedLine : String := "    LOW = 0, ':CODEGEN_BEGIN:'"

/-- The text with one block when the line was set into it. -/
def markedBlock : String := ":CODEGEN_BEGIN:\n    LOW = 0, ':CODEGEN_BEGIN:'\n:CODEGEN_END:\n"

theorem splice_markedLine :
    splice ⟨"yogi-python/yogi/_enums.py"⟩ block 0 [markedLine] = .ok markedBlock
      ∧ count block = 1 ∧ count markedBlock = 0
      ∧ splice ⟨"yogi-python/yogi/_enums.py"⟩ markedBlock 0 [markedLine] =
        .error (.unclosedBlock ⟨"yogi-python/yogi/_enums.py"⟩ 0 1) := by
  decide +kernel

set_option maxRecDepth 10000 in
theorem exists_markedHelp : ∃ interface edits,
    Interface.load "core_api.toml" markedHelp = .ok interface
      ∧ Target.python.emitter.emit interface ⟨Checkout.empty, ⟨"."⟩⟩ = .ok edits
      ∧ ⟨⟨"yogi-python/yogi/_enums.py"⟩, 0, [markedLine]⟩ ∈ edits := by
  obtain ⟨interface, hload, hok, hmem⟩ : ∃ interface,
      Interface.load "core_api.toml" markedHelp = .ok interface
        ∧ (Target.python.emitter.emit interface ⟨Checkout.empty, ⟨"."⟩⟩).isOk = true
        ∧ ⟨⟨"yogi-python/yogi/_enums.py"⟩, 0, [markedLine]⟩ ∈
          Target.python.edits interface ⟨Checkout.empty, ⟨"."⟩⟩ :=
    Interface.exists_load_of_described String.toList_ofList (by decide)
  exact ⟨interface, _, hload, Target.emits_of_isOk hok, hmem⟩

end Sample

/-- The marker in a help text takes away the block that its line is set into, so the line cannot be set
again. -/
theorem Target.splice_marked : ∃ interface edits edit result,
    Interface.load "core_api.toml" Sample.markedHelp = .ok interface
      ∧ Target.python.emitter.emit interface ⟨Checkout.empty, ⟨"."⟩⟩ = .ok edits
      ∧ edit ∈ edits
      ∧ ¬ AllUnmarked edit.lines
      ∧ splice edit.path Sample.block edit.block edit.lines = .ok result
      ∧ count Sample.block = 1 ∧ count result = 0
      ∧ splice edit.path result edit.block edit.lines = .error (.unclosedBlock edit.path 0 1) := by
  obtain ⟨interface, edits, hload, hemit, hmem⟩ := Sample.exists_markedHelp
  have hmarked : ¬ AllUnmarked [Sample.markedLine] := by decide
  exact ⟨interface, edits, _, Sample.markedBlock, hload, hemit, hmem, hmarked, Sample.splice_markedLine⟩

end Bindery
