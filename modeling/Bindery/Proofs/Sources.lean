import Bindery.Proofs.Run

/-!
# What emitters read

An emitter reads the names of files, the texts of the schemas, and the defaults of the mock library. A
run keeps names and schemas. So an emitter yields the same edits after a run, unless the defaults of
other functions are found then.
-/

namespace Bindery

open Checkout Text

theorem mapM_congr_of_mem {ε α β : Type} {f g : α → Except ε β} {items : List α}
    (h : ∀ item ∈ items, f item = g item) : items.mapM f = items.mapM g := by
  induction items with
  | nil => rfl
  | cons item rest ih =>
      obtain ⟨hitem, hrest⟩ := List.forall_mem_cons.mp h
      rw [List.mapM_cons, List.mapM_cons, hitem, ih hrest]

theorem foldlM_congr_of_mem {ε α β : Type} {f g : β → α → Except ε β} {items : List α}
    (h : ∀ item ∈ items, ∀ state, f state item = g state item) (state : β) :
    items.foldlM f state = items.foldlM g state := by
  induction items generalizing state with
  | nil => rfl
  | cons item rest ih =>
      obtain ⟨hitem, hrest⟩ := List.forall_mem_cons.mp h
      rw [List.foldlM_cons, List.foldlM_cons, hitem]
      congr
      funext next
      exact ih hrest next

namespace Sources

variable {before after : Checkout} {root : Path} {file : String}

theorem read_eq (h : SameTree before after)
    (hcontent : after.content? (root.join file).location = before.content? (root.join file).location) :
    read ⟨after, root⟩ file = read ⟨before, root⟩ file := by
  simp only [read, Checkout.read, readAt, hcontent, h.isFolder, h.absence]

theorem read_eq_ok_iff {text : String} :
    read ⟨before, root⟩ file = .ok text ↔
      before.content? (root.join file).location = some (.text text) := by
  rw [read, except_mapError_eq_ok_iff, Checkout.read_eq_ok_iff]

theorem fileNames_eq (h : SameTree before after) (folder ending : String) :
    fileNames ⟨after, root⟩ folder ending = fileNames ⟨before, root⟩ folder ending := by
  simp only [fileNames, h.folderAt, h.fileNames]

/-- What is read in a folder is the same when the files with the ending are. -/
theorem readFiles_eq (h : SameTree before after) {folder ending : String}
    (hcontent : ∀ names, fileNames ⟨before, root⟩ folder ending = .ok names → ∀ name ∈ names,
      after.content? (root.join (folder ++ "/" ++ name)).location =
        before.content? (root.join (folder ++ "/" ++ name)).location) :
    readFiles ⟨after, root⟩ folder ending = readFiles ⟨before, root⟩ folder ending := by
  have hfolder : hasFolder ⟨after, root⟩ folder = hasFolder ⟨before, root⟩ folder := by
    simp only [hasFolder, h.folderAt]
  rw [readFiles, readFiles, hfolder, fileNames_eq h]
  split
  next =>
    cases hnames : fileNames ⟨before, root⟩ folder ending with
    | error error => rfl
    | ok names =>
        refine mapM_congr_of_mem fun name hname => ?_
        rw [read_eq h (hcontent names hnames name hname)]
  next => rfl

/-- The names that are found in a folder are those of files that lie there. -/
theorem mem_fileNames {checkout : Checkout} {folder ending name : String} {names : List String}
    (h : fileNames ⟨checkout, root⟩ folder ending = .ok names) (hname : name ∈ names) :
    [name] ∈ checkout.below (root.join folder).location ∧ ending.toList <:+ name.toList := by
  simp only [fileNames] at h
  split at h
  · cases h
  next location hlocation =>
    have hfolder : location = (root.join folder).location := folderAt_eq_ok hlocation
    obtain rfl := Except.ok.inj h
    rw [List.mem_mergeSort, List.mem_filter, List.isSuffixOf_iff_suffix] at hname
    obtain ⟨hmem, hending⟩ := hname
    refine ⟨?_, hending⟩
    obtain ⟨relative, hrelative, hsingle⟩ := List.mem_filterMap.mp hmem
    rw [← hfolder]
    split at hsingle
    · rwa [← Option.some.inj hsingle]
    · cases hsingle

end Sources

namespace CoreLibrary

variable {before after checkout : Checkout} {root : Path} {name : String}

theorem location_schema (hname : isFileName name) :
    (root.join (schemaFolder ++ "/" ++ name)).location =
      root.location ++ ["yogi-core", "src", "schemas", name] := by
  have hjoin : Text.join "/" ["yogi-core", "src", "schemas", name] = schemaFolder ++ "/" ++ name := by
    rw [← String.toList_inj, Text.join, String.toList_intercalate]
    simp [schemaFolder, folder]
  have hnames : ["yogi-core", "src", "schemas", name].all isFileName := by
    simp only [List.all_cons, hname, List.all_nil, Bool.and_true]
    decide
  rw [← hjoin]
  exact Path.location_join_names root hnames

theorem location_schemaFolder (root : Path) :
    (root.join schemaFolder).location = root.location ++ ["yogi-core", "src", "schemas"] := by
  have hnames : (Path.names schemaFolder).all isFileName := by decide
  have hparts : Path.names schemaFolder = ["yogi-core", "src", "schemas"] := by decide
  rw [Path.location_join_of_names root hnames, hparts]

theorem isFileName_of_mem_below (h : [name] ∈ checkout.below (root.join schemaFolder).location) :
    isFileName name := by
  have hfolder : (root.join schemaFolder).location =
      (root.location ++ ["yogi-core", "src"]) ++ ["schemas"] := by
    rw [location_schemaFolder, List.append_assoc]
    rfl
  simpa using Header.all_isFileName_of_mem_below hfolder (by decide) h

/-- The names of the schemas are names of files. -/
theorem isFileName_of_mem_fileNames {names : List String}
    (h : Sources.fileNames ⟨checkout, root⟩ schemaFolder ".schema.json" = .ok names)
    (hname : name ∈ names) : isFileName name :=
  isFileName_of_mem_below (Sources.mem_fileNames h hname).1

/-- The schemas are the same in checkouts with the same files whose schemas hold the same. -/
theorem schemas_congr (h : SameTree before after)
    (hcontent : ∀ name, isFileName name → ".schema.json".toList <:+ name.toList →
      after.content? (root.join (schemaFolder ++ "/" ++ name)).location =
        before.content? (root.join (schemaFolder ++ "/" ++ name)).location) :
    schemas ⟨after, root⟩ = schemas ⟨before, root⟩ := by
  have hfiles : Sources.readFiles ⟨after, root⟩ schemaFolder ".schema.json" =
      Sources.readFiles ⟨before, root⟩ schemaFolder ".schema.json" := by
    refine Sources.readFiles_eq h fun names hnames name hname => ?_
    exact hcontent name (isFileName_of_mem_fileNames hnames hname) (Sources.mem_fileNames hnames hname).2
  rw [schemas, hfiles, schemas]

/-- A schema has no header. -/
theorem hasExtension_schema (hname : isFileName name) (hending : ".schema.json".toList <:+ name.toList) :
    Path.hasExtension Generation.headerExtensions ⟨name⟩ = false := by
  obtain ⟨front, hfront⟩ := hending
  have hbackwards : name.toList.reverse = "nosj.amehcs.".toList ++ front.reverse := by
    rw [← hfront, List.reverse_append]
    rfl
  have hlength : 5 < name.toList.length := by
    rw [← List.length_reverse, hbackwards, List.length_append]
    have hending : "nosj.amehcs.".toList.length = 12 := by decide
    omega
  have hextension : Path.extension? ⟨name⟩ = some "json" := by
    simp [Path.extension?, Path.fileName?_of_isFileName hname, hbackwards, hlength]
  rw [Path.hasExtension, hextension]
  decide

/-- No file with blocks of the core library is a schema. -/
theorem not_owns_schema (hname : isFileName name) (hending : ".schema.json".toList <:+ name.toList) :
    ¬ Target.core.Owns root (root.join (schemaFolder ++ "/" ++ name)).location := by
  rintro ⟨file, hfile, hlocation⟩
  have hfiles : ∀ file ∈ emitter.files, ¬ ".schema.json".toList.isSuffixOf file.toList := by
    decide
  have hnames : Path.names file = ["yogi-core", "src", "schemas", name] := by
    rw [location_schema hname, Target.location_of_mem_files hfile, List.append_cancel_left_eq]
      at hlocation
    exact hlocation.symm
  have hsuffix : name.toList <:+ file.toList := by
    rw [← Path.join_names file, hnames, Text.join, String.toList_intercalate]
    refine ⟨"yogi-core/src/schemas/".toList, ?_⟩
    simp
  exact hfiles file hfile (List.isSuffixOf_iff_suffix.mpr (hending.trans hsuffix))

theorem not_maintainsHeader_schema (hname : isFileName name)
    (hending : ".schema.json".toList <:+ name.toList) :
    ¬ Target.core.MaintainsHeader root (root.join (schemaFolder ++ "/" ++ name)).location := by
  rintro ⟨folder, -, between, last, hlocation, hextension⟩
  rw [location_schema hname] at hlocation
  have hlast : some name = some last := by
    have hends := congrArg List.getLast? hlocation
    rw [List.getLast?_concat] at hends
    rw [← hends]
    simp
  rw [← Option.some.inj hlast, hasExtension_schema hname hending] at hextension
  cases hextension

end CoreLibrary

/-- The edits of the mock library depend on the defaults only by the functions found there. -/
theorem MockLibrary.sheets_eq {interface : Interface} {old new : String}
    (h : ∀ function ∈ interface.functions, function.hasDefault new = function.hasDefault old) :
    sheets interface new = sheets interface old := by
  have hinitializer : ∀ function ∈ interface.functions,
      function.initializer new = function.initializer old := by
    intro function hfunction
    rw [Function.initializer, h function hfunction, Function.initializer]
  have hblocks : Function.mockBlocks interface new = Function.mockBlocks interface old := by
    have hlines : (Listing.empty .narrow).blank.tryEach interface.functions
          (Function.mockLines interface.types new) =
        (Listing.empty .narrow).blank.tryEach interface.functions
          (Function.mockLines interface.types old) := by
      refine foldlM_congr_of_mem (fun function hfunction listing => ?_) _
      rw [Function.mockLines, hinitializer function hfunction, Function.mockLines]
    have hresets : interface.functions.map (fun function =>
          "  " ++ function.holderName ++ " = " ++ function.initializer new ++ ";") =
        interface.functions.map fun function =>
          "  " ++ function.holderName ++ " = " ++ function.initializer old ++ ";" := by
      refine List.map_congr_left fun function hfunction => ?_
      rw [hinitializer function hfunction]
    rw [Function.mockBlocks, hlines, hresets, Function.mockBlocks]
  rw [sheets, hblocks, sheets]

namespace Generation

variable {before after : Checkout} {interface : Interface} {root : Path} {targets : List Target}
  {target : Target}

/-- The defaults that are found in two checkouts are those of the same functions. -/
def SameDefaults (interface : Interface) (root : Path) (before after : Checkout) : Prop :=
  ∀ old new,
    before.content? (root.join MockLibrary.defaultsFile).location = some (.text old) →
    after.content? (root.join MockLibrary.defaultsFile).location = some (.text new) →
    ∀ function ∈ interface.functions, function.hasDefault new = function.hasDefault old

theorem schemas_eq
    (hemit : ∀ target ∈ targets, target.emitter.emit interface ⟨before, root⟩ =
      .ok (target.edits interface ⟨before, root⟩))
    (hrevised : Revised (targets.flatMap (Target.revisions before interface root)) before after) :
    CoreLibrary.schemas ⟨after, root⟩ = CoreLibrary.schemas ⟨before, root⟩ := by
  refine CoreLibrary.schemas_congr hrevised.sameTree fun name hfile hending => ?_
  have hholds : Target.core.Holds root
      (root.join (CoreLibrary.schemaFolder ++ "/" ++ name)).location :=
    ⟨["src", "schemas", name], CoreLibrary.location_schema hfile⟩
  -- only the core library could revise the file, and it does neither own nor maintain schemas
  refine content?_eq_of_forall_not hemit hrevised fun target _ => ⟨fun howns => ?_, fun hmaintains => ?_⟩
  · obtain rfl := Target.eq_of_holds hholds howns.holds
    exact CoreLibrary.not_owns_schema hfile hending howns
  · obtain rfl := Target.eq_of_holds hholds hmaintains.holds
    exact CoreLibrary.not_maintainsHeader_schema hfile hending hmaintains

/-- Every emitter yields after a run what it yielded before. -/
theorem emit_eq
    (hemit : ∀ target ∈ targets, target.emitter.emit interface ⟨before, root⟩ =
      .ok (target.edits interface ⟨before, root⟩))
    (hrevised : Revised (targets.flatMap (Target.revisions before interface root)) before after)
    (hdefaults : SameDefaults interface root before after) (hmem : target ∈ targets) :
    target.emitter.emit interface ⟨after, root⟩ = target.emitter.emit interface ⟨before, root⟩ := by
  cases target with
  | core =>
      change (CoreLibrary.schemas ⟨after, root⟩ >>= fun schemas =>
        Sheet.allEdits (CoreLibrary.sheets interface schemas)) = _
      rw [schemas_eq hemit hrevised]
      rfl
  | mock =>
      obtain ⟨old, hold, -⟩ := except_bind_eq_ok_iff.mp (hemit .mock hmem)
      -- the file of the defaults may have been revised, so its text is not that of before
      have htext := Sources.read_eq_ok_iff.mp hold
      obtain ⟨new, -, htext'⟩ := hrevised.textAt_eq_ok htext
      have hnew : Sources.read ⟨after, root⟩ MockLibrary.defaultsFile = .ok new :=
        Sources.read_eq_ok_iff.mpr htext'
      have hsheets : MockLibrary.sheets interface new = MockLibrary.sheets interface old :=
        MockLibrary.sheets_eq (hdefaults old new htext htext')
      change (Sources.read ⟨after, root⟩ MockLibrary.defaultsFile >>= fun defaults =>
          Sheet.allEdits (MockLibrary.sheets interface defaults)) =
        (Sources.read ⟨before, root⟩ MockLibrary.defaultsFile >>= fun defaults =>
          Sheet.allEdits (MockLibrary.sheets interface defaults))
      rw [hnew, hold]
      exact congrArg Sheet.allEdits hsheets
  | cpp =>
      change (Sources.fileNames ⟨after, root⟩ CppBindings.headerFolder ".h" >>= fun headers =>
        Sheet.allEdits (CppBindings.sheets interface headers)) = _
      rw [Sources.fileNames_eq hrevised.sameTree]
      rfl
  | dotnet => rfl
  | python => rfl

end Generation

end Bindery
