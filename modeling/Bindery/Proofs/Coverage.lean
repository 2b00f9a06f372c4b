import Bindery.Proofs.Lookups

/-!
# Coverage

Once an interface is checked, all sheets of every target can be rendered. So an emitter fails only on a
file or folder of the checkout that it cannot read.
-/

namespace Bindery

theorem Sheet.succeeds_allEdits {sheets : List Sheet} (h : ∀ sheet ∈ sheets, Succeeds sheet.blocks) :
    Succeeds (allEdits sheets) := by
  have hedits : ∀ sheet ∈ sheets, Succeeds sheet.edits := fun sheet hsheet =>
    succeeds_bind (h sheet hsheet) fun _ => succeeds_ok _
  exact succeeds_bind (succeeds_mapM hedits) fun _ => succeeds_ok _

theorem Sheet.succeeds_single (path : String) (lines : List String) :
    Succeeds (single path lines).blocks := succeeds_ok [lines]

section Sheets

variable {interface : Interface}

theorem CoreLibrary.succeeds_sheets (h : interface.Covers .c) (schemas : List Schema) :
    ∀ sheet ∈ sheets interface schemas, Succeeds sheet.blocks := by
  have hheader : Succeeds (headerBlocks interface) := by
    refine succeeds_bind (succeeds_mapM fun function hfunction => ?_) fun _ => succeeds_ok _
    exact Function.succeeds_headerLine (h.functions function hfunction)
  have hdefinitions : Succeeds (Constant.definitions interface) := by
    refine succeeds_bind (succeeds_mapM fun constant hconstant => ?_) fun _ => succeeds_ok _
    exact Constant.succeeds_definition (h.constants constant hconstant)
  have hcases : Succeeds (interface.constants.mapM Constant.readingCase) :=
    succeeds_mapM fun constant hconstant =>
      succeeds_bind (h.constants constant hconstant) fun _ => succeeds_ok _
  simp only [sheets, List.forall_mem_cons]
  refine ⟨hheader, succeeds_bind hdefinitions fun _ => succeeds_ok _,
    succeeds_bind hcases fun _ => succeeds_ok _, Sheet.succeeds_single _ _, Sheet.succeeds_single _ _,
    Sheet.succeeds_single _ _, Sheet.succeeds_single _ _, succeeds_ok _, succeeds_ok _,
    Sheet.succeeds_single _ _, by simp⟩

theorem MockLibrary.succeeds_sheets (h : interface.Covers .c) (defaults : String) :
    ∀ sheet ∈ sheets interface defaults, Succeeds sheet.blocks := by
  have hcases : Succeeds (interface.constants.mapM (Constant.mockCase interface.version)) :=
    succeeds_mapM fun constant hconstant =>
      succeeds_bind (h.constants constant hconstant) fun _ => succeeds_ok _
  have hblocks : Succeeds (Function.mockBlocks interface defaults) := by
    refine succeeds_bind (succeeds_foldlM (fun function hfunction listing => ?_) _)
      fun _ => succeeds_ok _
    exact Function.succeeds_mockLines (h.functions function hfunction) defaults listing
  simp only [sheets, List.forall_mem_cons]
  exact ⟨succeeds_bind hcases fun _ => succeeds_ok _, Sheet.succeeds_single _ _, hblocks,
    Sheet.succeeds_single _ _, Sheet.succeeds_single _ _, by simp⟩

theorem CppBindings.succeeds_sheets (hc : interface.Covers .c) (hcpp : interface.Covers .cpp)
    (headers : List String) : ∀ sheet ∈ sheets interface headers, Succeeds sheet.blocks := by
  have hpointers : Succeeds (Function.cppLines interface) := by
    refine succeeds_bind (succeeds_foldlM (fun function hfunction listing => ?_) _)
      fun _ => succeeds_ok _
    exact Function.succeeds_cppPointer (hc.functions function hfunction) listing
  have hconstants : Succeeds (Constant.cppBlocks interface) := by
    refine succeeds_bind (succeeds_mapM fun constant hconstant => ?_) fun _ => succeeds_ok _
    exact Constant.succeeds_row (hc.constants constant hconstant) (hcpp.constants constant hconstant)
  have hinstallers : Succeeds (interface.functions.mapM (Function.cppInstaller interface.types)) :=
    succeeds_mapM fun function hfunction =>
      Function.succeeds_cppInstaller (hc.functions function hfunction)
  have hloaders :
      Succeeds (interface.functions.mapM (Function.cppInstallerLoader interface.types)) :=
    succeeds_mapM fun function hfunction =>
      Function.succeeds_cppInstallerLoader (hc.functions function hfunction)
  simp only [sheets, List.forall_mem_cons]
  exact ⟨Sheet.succeeds_single _ _, succeeds_bind hpointers fun _ => succeeds_ok _,
    Sheet.succeeds_single _ _, hconstants, Sheet.succeeds_single _ _, succeeds_ok _,
    succeeds_bind hinstallers fun _ => succeeds_ok _,
    succeeds_bind hloaders fun _ => succeeds_ok _, Sheet.succeeds_single _ _, by simp⟩

theorem DotnetBindings.succeeds_sheets (h : interface.Covers .csharp) :
    ∀ sheet ∈ sheets interface, Succeeds sheet.blocks := by
  have hconstants : Succeeds (Constant.csharpBlocks interface) := by
    refine succeeds_bind (succeeds_mapM fun constant hconstant => ?_) fun _ => succeeds_ok _
    exact succeeds_bind (h.constants constant hconstant) fun _ => succeeds_ok _
  have hloaders : Succeeds (Function.csharpLines interface) := by
    refine succeeds_bind (succeeds_mapM fun function hfunction => ?_) fun _ => succeeds_ok _
    exact Function.succeeds_csharpLoader (h.functions function hfunction)
  have hinstallers : Succeeds (Function.csharpInstallers interface) := by
    refine succeeds_bind (succeeds_mapM fun function hfunction => ?_) fun _ => succeeds_ok _
    exact Function.succeeds_csharpInstaller (h.functions function hfunction)
  simp only [sheets, List.forall_mem_cons]
  exact ⟨Sheet.succeeds_single _ _, Sheet.succeeds_single _ _, Sheet.succeeds_single _ _, hconstants,
    succeeds_ok _, succeeds_bind hloaders fun _ => succeeds_ok _,
    succeeds_bind hinstallers fun _ => succeeds_ok _, Sheet.succeeds_single _ _, by simp⟩

theorem PythonBindings.succeeds_sheets (h : interface.Covers .python)
    (hflags : interface.checkFlags = .ok ()) : ∀ sheet ∈ sheets interface, Succeeds sheet.blocks := by
  have hprototypes : Succeeds (Function.pythonLines interface) := by
    refine succeeds_bind (succeeds_mapM fun function hfunction => ?_) fun _ => succeeds_ok _
    exact Function.succeeds_pythonPrototype (h.functions function hfunction)
  have henumerations : Succeeds (enumerationBlocks interface) := by
    refine succeeds_bind (succeeds_mapM fun set hset => ?_) fun _ => succeeds_ok _
    have hvalues : Succeeds set.values :=
      -- the values of flags are all that is not a lookup of a type
      succeeds_discard.mp (succeeds_of_forM ⟨(), hflags⟩ set hset)
    exact succeeds_bind hvalues fun _ => succeeds_ok _
  have hattributes : Succeeds (interface.constants.zipIdx.mapM fun entry =>
      Constant.pythonAttribute entry.1 (entry.2 + 1)) :=
    succeeds_mapM fun entry hentry =>
      succeeds_bind (h.constants _ (List.fst_mem_of_mem_zipIdx hentry)) fun _ => succeeds_ok _
  have hrows : Succeeds (interface.constants.mapM Constant.pythonRow) :=
    succeeds_mapM fun constant hconstant =>
      succeeds_bind (h.constants constant hconstant) fun _ => succeeds_ok _
  have hinstallers (keepalive : String) :
      Succeeds (Function.pythonInstallers interface keepalive) := by
    refine succeeds_bind (succeeds_mapM fun function hfunction => ?_) fun _ => succeeds_ok _
    exact Function.succeeds_pythonInstaller (h.functions function hfunction) keepalive
  simp only [sheets, List.forall_mem_cons]
  exact ⟨succeeds_bind hprototypes fun _ => succeeds_ok _, henumerations,
    succeeds_bind hattributes fun _ => succeeds_bind hrows fun _ => succeeds_ok _,
    Sheet.succeeds_single _ _, succeeds_bind (hinstallers _) fun _ => succeeds_ok _,
    succeeds_bind (hinstallers _) fun _ => succeeds_ok _, Sheet.succeeds_single _ _, by simp⟩

end Sheets

namespace Sources

variable {sources : Sources} {error : EmitError}

/-- An error says that a file or folder of a checkout cannot be read, and why. -/
def Unreadable (checkout : Checkout) (error : EmitError) : Prop :=
  ∃ path failure, error = .unreadable path failure
    ∧ (checkout.read path = .error failure ∨ checkout.folderAt path = .error failure)

theorem unreadable_of_read {file : String} (h : sources.read file = .error error) :
    Unreadable sources.checkout error := by
  simp only [read] at h
  cases hread : sources.checkout.read (sources.root.join file) with
  | error failure =>
      rw [hread] at h
      cases h
      exact ⟨_, failure, rfl, Or.inl hread⟩
  | ok text =>
      rw [hread] at h
      cases h

theorem unreadable_of_fileNames {folder ending : String}
    (h : sources.fileNames folder ending = .error error) : Unreadable sources.checkout error := by
  simp only [fileNames] at h
  split at h
  next failure hfailure =>
    cases h
    exact ⟨_, failure, rfl, Or.inr hfailure⟩
  next => cases h

theorem unreadable_of_readFiles {folder ending : String}
    (h : sources.readFiles folder ending = .error error) : Unreadable sources.checkout error := by
  unfold readFiles at h
  split at h
  next =>
    cases hnames : sources.fileNames folder ending with
    | error failure =>
        rw [hnames] at h
        cases h
        exact unreadable_of_fileNames hnames
    | ok names =>
        rw [hnames] at h
        obtain ⟨name, -, hname⟩ := exists_mem_eq_error_of_mapM h
        exact unreadable_of_read (eq_error_of_bind_eq_error (fun _ => succeeds_ok _) hname)
  next => cases h

end Sources

namespace Interface

variable {interface : Interface}

/-- When the check of an interface passes, its flag sets have values, and an emitter fails only on a file
or folder that it cannot read. -/
theorem check_sound {coverage : List Coverage} (h : interface.check = .ok coverage) :
    interface.checkFlags = .ok () ∧
      ∀ (target : Target) (sources : Sources) (error : EmitError),
        target.emitter.emit interface sources = .error error →
          ∃ path failure, error = .unreadable path failure
            ∧ (sources.checkout.read path = .error failure
              ∨ sources.checkout.folderAt path = .error failure) := by
  obtain ⟨hflags, hcovers⟩ := covers_of_check h
  refine ⟨hflags, fun target sources error herror => ?_⟩
  cases target with
  | core =>
      have hc := hcovers .core .c (by decide)
      have hschemas : CoreLibrary.schemas sources = .error error :=
        eq_error_of_bind_eq_error
          (fun schemas => Sheet.succeeds_allEdits (CoreLibrary.succeeds_sheets hc schemas)) herror
      exact Sources.unreadable_of_readFiles
        (eq_error_of_bind_eq_error (fun _ => succeeds_ok _) hschemas)
  | mock =>
      have hc := hcovers .mock .c (by decide)
      exact Sources.unreadable_of_read <| eq_error_of_bind_eq_error
        (fun defaults => Sheet.succeeds_allEdits (MockLibrary.succeeds_sheets hc defaults)) herror
  | cpp =>
      have hc := hcovers .cpp .c (by decide)
      have hcpp := hcovers .cpp .cpp (by decide)
      exact Sources.unreadable_of_fileNames <| eq_error_of_bind_eq_error
        (fun headers => Sheet.succeeds_allEdits (CppBindings.succeeds_sheets hc hcpp headers)) herror
  | dotnet =>
      have hcsharp := hcovers .dotnet .csharp (by decide)
      obtain ⟨edits, hedits⟩ := Sheet.succeeds_allEdits (DotnetBindings.succeeds_sheets hcsharp)
      cases hedits.symm.trans herror
  | python =>
      have hpython := hcovers .python .python (by decide)
      obtain ⟨edits, hedits⟩ :=
        Sheet.succeeds_allEdits (PythonBindings.succeeds_sheets hpython hflags)
      cases hedits.symm.trans herror

end Interface

namespace Sample

/-- The names that a type goes by, one in each language. -/
def names (c cpp csharp python : String) : TypeNames :=
  ⟨some c, some cpp, some csharp, some python⟩

/-- An interface with a constant, a function that takes a callback, and a flag made of other flags. -/
def described : Interface :=
  { copyright := ""
    version := ⟨1, 2, 3, "-rc"⟩
    constants :=
      [⟨"VERSION", names "const char*" "std::string" "string" "str", .line "1.2.3", "The version."⟩]
    functions :=
      [⟨"Post", "int", [.scalar "handle" "void*", .callback "fn" "void" [.scalar "result" "int"]]⟩]
    enumerations := []
    flagSets :=
      [⟨"Events", none,
        [⟨"Sent", "Sent.", .bit (some 0)⟩, ⟨"Received", "Received.", .bit (some 1)⟩,
          ⟨"All", "Both.", .combine ["Sent", "Received"]⟩]⟩]
    types :=
      [("int", names "int" "int" "int" "c_int"), ("void", names "void" "void" "void" "None"),
        ("void*", names "void*" "void*" "IntPtr" "c_void_p")] }

theorem exists_check : ∃ coverage, described.check = .ok coverage := by
  have hsucceeds : described.check.isOk = true := by
    decide
  cases hcheck : described.check with
  | ok coverage => exact ⟨coverage, rfl⟩
  | error failure =>
      rw [hcheck] at hsucceeds
      cases hsucceeds

end Sample

/-- The described interface passes, so the checks and lookups of its emitters are settled. -/
theorem Interface.check_sound_described : ∃ coverage,
    Sample.described.check = .ok coverage
      ∧ Sample.described.checkFlags = .ok ()
      ∧ ∀ (target : Target) (sources : Sources) (error : EmitError),
        target.emitter.emit Sample.described sources = .error error →
          ∃ path failure, error = .unreadable path failure
            ∧ (sources.checkout.read path = .error failure
              ∨ sources.checkout.folderAt path = .error failure) := by
  obtain ⟨coverage, hcheck⟩ := Sample.exists_check
  obtain ⟨hflags, hemit⟩ := Interface.check_sound hcheck
  exact ⟨coverage, hcheck, hflags, hemit⟩

end Bindery
