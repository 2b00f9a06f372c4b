import Bindery.Proofs.Decoding
import Bindery.Proofs.DelegateNames
import Bindery.Proofs.FreeTexts
import Bindery.Proofs.Replacing

/-!
# Marshalled types

The mock library has the delegate types of the API with plain pointers in place of the types that are
marshalled. They are replaced in the text of the declarations. The types and names of a declaration
stand apart from each other, so each of them is replaced by itself. No name has a bracket, but one can
have the name of the type of handles in it, and is then replaced as well.
-/

namespace Bindery

open Text Naming

namespace Signature

/-! ## Texts -/

section Texts

variable {name first second separator : String} {texts : List String}

/-- Whether a text keeps those on its two sides apart: it has characters, and none of them is in the name
of a marshalled type. -/
def setsApart (separator : String) : Bool :=
  !separator.toList.isEmpty &&
    separator.toList.all fun c => marshalledTypes.all fun type => !type.toList.contains c

theorem unmarshal_append (h : setsApart separator = true) :
    unmarshal (first ++ separator ++ second) = unmarshal first ++ separator ++ unmarshal second := by
  simp only [setsApart, Bool.and_eq_true, Bool.not_eq_true', List.isEmpty_eq_false_iff,
    List.all_eq_true, List.contains_eq_mem, decide_eq_false_iff_not] at h
  obtain ⟨hsome, hapart⟩ := h
  have htypes : ∀ type ∈ marshalledTypes,
      type.toList ≠ [] ∧ ∀ c ∈ separator.toList, c ∉ type.toList := by
    refine fun type htype => ⟨?_, fun c hc => hapart c hc type htype⟩
    revert type
    decide
  unfold unmarshal
  generalize marshalledTypes = types at htypes
  induction types generalizing first second with
  | nil => rfl
  | cons type rest ih =>
      obtain ⟨⟨hne, hc⟩, hrest⟩ := List.forall_mem_cons.mp htypes
      rw [List.foldl_cons, List.foldl_cons, List.foldl_cons, ← ih hrest]
      congr 1
      rw [← String.toList_inj]
      simp only [String.toList_append, String.toList_ofList, List.append_assoc]
      exact replace_append_separator hne hsome hc

theorem unmarshal_join : unmarshal (join ", " texts) = join ", " (texts.map unmarshal) := by
  induction texts with
  | nil => rfl
  | cons first rest ih =>
      cases rest with
      | nil => simp [join]
      | cons second others =>
          rw [join, String.intercalate_cons_cons, unmarshal_append rfl]
          rw [join] at ih
          rw [ih]
          simp [join]

/-- Whether a text has the name of the type of handles in it. -/
def NamesHandle (text : String) : Prop := "SafeHandle".toList <:+: text.toList

instance (text : String) : Decidable (NamesHandle text) :=
  inferInstanceAs (Decidable ("SafeHandle".toList <:+: text.toList))

/-- In a name only the type of handles can be found. -/
theorem toList_unmarshal (h : Nominal name) :
    (unmarshal name).toList = replace "SafeHandle".toList "IntPtr".toList name.toList := by
  have hbracket : '[' ∉ replace "SafeHandle".toList "IntPtr".toList name.toList := by
    intro hmem
    rcases mem_replace hmem with hpointer | hname
    · exact absurd hpointer (by decide)
    · exact absurd (h '[' hname) (by decide)
  have hkeeps (type : String) (htype : '[' ∈ type.toList) :
      replace type.toList "IntPtr".toList (replace "SafeHandle".toList "IntPtr".toList name.toList)
        = replace "SafeHandle".toList "IntPtr".toList name.toList :=
    replace_of_not_infix fun hfound => hbracket (hfound.subset htype)
  simp only [unmarshal, marshalledTypes, List.foldl_cons, List.foldl_nil, String.toList_ofList]
  rw [hkeeps "string[]" (by decide), hkeeps "byte[]" (by decide)]

theorem not_namesHandle_unmarshal (h : Nominal name) : ¬ NamesHandle (unmarshal name) := by
  rw [NamesHandle, toList_unmarshal h]
  exact not_infix_replace (by decide) (by decide)

theorem nominal_unmarshal (h : Nominal name) : Nominal (unmarshal name) := by
  have hpointer : "IntPtr".toList.all isNominal = true := by decide
  intro c hc
  rw [toList_unmarshal h] at hc
  exact (mem_replace hc).elim (List.all_eq_true.mp hpointer c) (h c)

theorem unmarshal_eq_self_iff (h : Nominal name) : unmarshal name = name ↔ ¬ NamesHandle name := by
  constructor
  · intro heq
    rw [← heq]
    exact not_namesHandle_unmarshal h
  · intro hnot
    rw [← String.toList_inj, toList_unmarshal h, replace_of_not_infix hnot]

end Texts

/-! ## Declarations -/

namespace Delegate

variable {own first second : Delegate}

/-- The names in a declaration. -/
def names (own : Delegate) : List String := own.name :: own.parameters.map Prod.snd

/-- The declaration with all its types and names unmarshalled. -/
def unmarshalled (own : Delegate) : Delegate :=
  { own with
    name := unmarshal own.name
    returnType := unmarshal own.returnType
    parameters := own.parameters.map fun parameter => (unmarshal parameter.1, unmarshal parameter.2) }

/-- The declaration with its types unmarshalled, and its names as they are. -/
def retyped (own : Delegate) : Delegate :=
  { own with
    returnType := unmarshal own.returnType
    parameters := own.parameters.map fun parameter => (unmarshal parameter.1, parameter.2) }

theorem unmarshal_parameterText (parameter : String × String) :
    unmarshal (parameterText parameter) = parameterText (unmarshal parameter.1, unmarshal parameter.2) :=
  unmarshal_append rfl

/-- A declaration is unmarshalled part by part. -/
theorem map_unmarshal_lines (own : Delegate) : own.lines.map unmarshal = own.unmarshalled.lines := by
  have hattribute : unmarshal delegateAttribute = delegateAttribute := by decide +kernel
  have hblank : unmarshal "" = "" := rfl
  have hstart (text : String) : unmarshal ("        public delegate " ++ text)
      = "        public delegate " ++ unmarshal text := by
    have hsplit : "        public delegate " = "        public delegate" ++ " " := by decide
    rw [hsplit, unmarshal_append rfl]
    congr 1
  have hend (text : String) : unmarshal (text ++ ");") = unmarshal text ++ ");" := by
    rw [← String.append_empty (s := text ++ ");"), unmarshal_append rfl, hblank, String.append_empty]
  have hline : unmarshal ("        public delegate " ++ own.returnType ++ " " ++ own.name ++ "("
        ++ join ", " (own.parameters.map parameterText) ++ ");")
      = "        public delegate " ++ unmarshal own.returnType ++ " " ++ unmarshal own.name ++ "("
        ++ join ", " ((own.parameters.map parameterText).map unmarshal) ++ ");" := by
    rw [hend, unmarshal_append rfl, unmarshal_append rfl, hstart, unmarshal_join]
  have hparameters : (own.parameters.map parameterText).map unmarshal
      = own.unmarshalled.parameters.map parameterText := by
    simp [unmarshalled, unmarshal_parameterText]
  simp only [lines, List.map_cons, List.map_nil, hattribute, hblank, hline, hparameters]
  rfl

theorem unmarshalled_eq_retyped_iff (h : ∀ name ∈ own.names, Nominal name) :
    own.unmarshalled = own.retyped ↔ ∀ name ∈ own.names, ¬ NamesHandle name := by
  obtain ⟨hname, hparameters⟩ := List.forall_mem_cons.mp h
  rw [names, List.forall_mem_cons, ← unmarshal_eq_self_iff hname, List.forall_mem_map]
  rw [List.forall_mem_map] at hparameters
  simp only [unmarshalled, retyped, mk.injEq, true_and, List.map_inj_left, Prod.mk.injEq]
  exact and_congr_right fun _ =>
    forall₂_congr fun parameter hmem => unmarshal_eq_self_iff (hparameters parameter hmem)

/-- A name ends where a separator starts with a character that no name has. -/
theorem name_append_inj {name other separator rest behind : String}
    (hseparator : separator.toList.head?.any (fun c => !isNominal c) = true) (hname : Nominal name)
    (hother : Nominal other) (h : name ++ (separator ++ rest) = other ++ (separator ++ behind)) :
    name = other ∧ rest = behind := by
  obtain ⟨c, hhead, hc⟩ := (Option.any_eq_true _ _).mp hseparator
  obtain ⟨more, hmore⟩ := List.head?_eq_some_iff.mp hhead
  have hnot {text : String} (htext : Nominal text) : c ∉ text.toList := fun hmem => by
    simp [htext c hmem] at hc
  have hchars : name.toList ++ c :: (more ++ rest.toList)
      = other.toList ++ c :: (more ++ behind.toList) := by
    simpa [String.toList_append, hmore] using congrArg String.toList h
  obtain ⟨hnames, hrest⟩ := append_cons_inj (hnot hname) (hnot hother) hchars
  exact ⟨String.toList_inj.mp hnames, String.toList_inj.mp (List.append_cancel_left hrest)⟩

/-- The names of parameters can be told from their list when the types are known. -/
theorem parameters_inj {parameters others : List (String × String)}
    (htypes : parameters.map Prod.fst = others.map Prod.fst)
    (hnames : ∀ name ∈ parameters.map Prod.snd, Nominal name)
    (hothers : ∀ name ∈ others.map Prod.snd, Nominal name)
    (h : join ", " (parameters.map parameterText) = join ", " (others.map parameterText)) :
    parameters = others := by
  induction parameters generalizing others with
  | nil => simpa using htypes.symm
  | cons parameter rest ih =>
      cases others with
      | nil => simp at htypes
      | cons other behind =>
          obtain ⟨type, name⟩ := parameter
          obtain ⟨type', name'⟩ := other
          rw [List.map_cons, List.map_cons, List.cons.injEq] at htypes
          obtain ⟨rfl, htypes⟩ := htypes
          rw [List.map_cons, List.forall_mem_cons] at hnames hothers
          cases rest with
          | nil =>
              obtain rfl : behind = [] := by simpa using htypes.symm
              simp only [join, List.map_cons, List.map_nil, String.intercalate_singleton,
                parameterText, String.append_right_inj] at h
              rw [h]
          | cons next others =>
              obtain ⟨following, behind, rfl⟩ : ∃ following more, behind = following :: more := by
                cases behind with
                | nil => simp at htypes
                | cons following more => exact ⟨following, more, rfl⟩
              simp only [join, List.map_cons, String.intercalate_cons_cons, parameterText,
                String.append_assoc, String.append_right_inj] at h
              obtain ⟨rfl, hlists⟩ := name_append_inj rfl hnames.1 hothers.1 h
              have hrest : join ", " ((next :: others).map parameterText)
                  = join ", " ((following :: behind).map parameterText) := by
                simpa [join, parameterText, String.append_assoc] using hlists
              rw [ih htypes hnames.2 hothers.2 hrest]

/-- The names in a declaration can be told from its lines when the types are known. -/
theorem eq_of_lines_eq (hreturn : first.returnType = second.returnType)
    (htypes : first.parameters.map Prod.fst = second.parameters.map Prod.fst)
    (hfirst : ∀ name ∈ first.names, Nominal name) (hsecond : ∀ name ∈ second.names, Nominal name)
    (h : first.lines = second.lines) :
    first.name = second.name ∧ first.parameters = second.parameters := by
  obtain ⟨hname, hparameters⟩ := List.forall_mem_cons.mp hfirst
  obtain ⟨hname', hparameters'⟩ := List.forall_mem_cons.mp hsecond
  simp only [lines, List.cons.injEq, true_and, and_true, hreturn, String.append_assoc,
    String.append_right_inj] at h
  obtain ⟨hnames, hrest⟩ := name_append_inj rfl hname hname' h
  have hlists := (String.append_left_inj ");").mp hrest
  exact ⟨hnames, parameters_inj htypes hparameters hparameters' hlists⟩

theorem nominal_names_unmarshalled (h : ∀ name ∈ own.names, Nominal name) :
    ∀ name ∈ own.unmarshalled.names, Nominal name := by
  have hnames : own.unmarshalled.names = own.names.map unmarshal := by simp [names, unmarshalled]
  rw [hnames, List.forall_mem_map]
  exact fun name hmem => nominal_unmarshal (h name hmem)

theorem length_lines (own : Delegate) : own.lines.length = 3 := rfl

/-- Nothing but types is replaced exactly when no name has that of the handles in it. -/
theorem flatMap_unmarshalled_eq_iff {declared : List Delegate}
    (h : ∀ own ∈ declared, ∀ name ∈ own.names, Nominal name) :
    (declared.map unmarshalled).flatMap lines = (declared.map retyped).flatMap lines ↔
      ∀ own ∈ declared, ∀ name ∈ own.names, ¬ NamesHandle name := by
  induction declared with
  | nil => simp
  | cons own rest ih =>
      obtain ⟨hown, hrest⟩ := List.forall_mem_cons.mp h
      have hretyped : own.retyped.names = own.names := by simp [names, retyped]
      rw [List.map_cons, List.map_cons, List.flatMap_cons, List.flatMap_cons, List.forall_mem_cons,
        ← ih hrest, ← unmarshalled_eq_retyped_iff hown]
      constructor
      · intro heq
        obtain ⟨hlines, hothers⟩ := List.append_inj heq (by rw [length_lines, length_lines])
        obtain ⟨hname, hparameters⟩ := eq_of_lines_eq (by simp only [unmarshalled, retyped])
          (by simp [unmarshalled, retyped]) (nominal_names_unmarshalled hown) (by rwa [hretyped]) hlines
        simp only [unmarshalled, retyped] at hname hparameters
        exact ⟨by rw [unmarshalled, retyped, hname, hparameters], hothers⟩
      · rintro ⟨hsame, hothers⟩
        rw [hsame, hothers]

theorem map_snd_of_standsFor {types : TypeMap} {before : List Delegate} {trail : Trail} {owner : String}
    {entries : List (Argument × Nat)} {parameters : List (String × String)}
    (h : List.Forall₂ (StandsFor types before trail owner) entries parameters) :
    parameters.map Prod.snd = entries.map fun entry => entry.1.name := by
  induction h with
  | nil => rfl
  | cons hstands _ ih => rw [List.map_cons, List.map_cons, ih, hstands.1]

end Delegate

end Signature

namespace Function

open Signature Delegate

variable {types : TypeMap} {function signature : Function} {declared : List Delegate} {trail : Trail}
  {lines : List String}

theorem Named.signatureAt? (h : function.Named)
    (hsignature : function.signatureAt? trail = some signature) : signature.Named := by
  induction trail generalizing function with
  | nil =>
      cases hsignature
      exact h
  | cons step rest ih =>
      obtain ⟨returnType, args, harg, hrest⟩ := signatureAt?_cons.mp hsignature
      cases h.args _ (List.mem_of_getElem? harg) with
      | callback hname hargs =>
          have hcallback : Named ⟨callbackName function.name step.2, returnType, args⟩ :=
            ⟨nominal_callbackName h.name hname, hargs⟩
          exact ih hcallback hrest

/-- The names in the declarations of a function are made of its own names. -/
theorem Hoists.nominal (h : function.Hoists types declared) (hnamed : function.Named) :
    ∀ own ∈ declared, ∀ name ∈ own.names, Nominal name := by
  intro own hown
  obtain ⟨front, back, hsplit⟩ := List.append_of_mem hown
  obtain ⟨signature, hsignature, hname, -, hparameters⟩ := h.renders front own back hsplit
  have hnamed := hnamed.signatureAt? hsignature
  rw [names, List.forall_mem_cons, hname, map_snd_of_standsFor hparameters]
  refine ⟨nominal_delegateName hnamed.name, ?_⟩
  refine List.forall_mem_map.mpr fun entry hentry => (hnamed.args _ ?_).name
  exact List.fst_mem_of_mem_zipIdx hentry

/-- The lines that declare and load the installer of a function for the tests in C#, given the
declarations of the delegate types that it uses. -/
def installingLines (function : Function) (declared : List Delegate) : List String :=
  let installer := bareName function.name ++ "MockDelegate"
  ["", "        // " ++ mockName function.name] ++ declared.flatMap Delegate.lines
    ++ [ delegateAttribute,
      "        internal delegate void " ++ installer ++ "(" ++ delegateName function.name ++ " fn);",
      "",
      "        internal static " ++ installer ++ " " ++ mockName function.name,
      "            = Yogi.Library.GetDelegateForFunction<" ++ installer ++ ">(\""
        ++ mockName function.name ++ "\");" ]

/-- The mock library has the declarations of a function unmarshalled. Only types differ, and the
installer refers to one of the declarations, as long as the type of handles is named nowhere else. -/
structure Unmarshals (types : TypeMap) (function : Function) (declared : List Delegate) : Prop where
  lines : mockDelegates types function = .ok ((declared.map unmarshalled).flatMap Delegate.lines)
  retypes : mockDelegates types function = .ok ((declared.map retyped).flatMap Delegate.lines) ↔
    ∀ own ∈ declared, ∀ name ∈ own.names, ¬ NamesHandle name
  installer : function.csharpInstaller types = .ok (function.installingLines (declared.map unmarshalled))
  installed : delegateName function.name ∈ (declared.map unmarshalled).map Delegate.name ↔
    ¬ NamesHandle (delegateName function.name)

theorem Hoists.unmarshals (h : function.Hoists types declared) (hnamed : function.Named)
    (hdelegates : delegates types function = .ok (declared.flatMap Delegate.lines)) :
    function.Unmarshals types declared := by
  have hnominal := h.nominal hnamed
  have hlines : mockDelegates types function
      = .ok ((declared.map unmarshalled).flatMap Delegate.lines) := by
    refine except_bind_eq_ok_iff.mpr ⟨_, hdelegates, ?_⟩
    rw [List.map_flatMap, List.flatMap_map]
    simp only [map_unmarshal_lines]
    rfl
  refine ⟨hlines, ?_, except_bind_eq_ok_iff.mpr ⟨_, hlines, rfl⟩, ?_⟩
  · rw [hlines, Except.ok.injEq, flatMap_unmarshalled_eq_iff hnominal]
  · rw [List.map_map, List.mem_map]
    constructor
    · rintro ⟨own, hown, hname⟩
      rw [← hname]
      exact not_namesHandle_unmarshal (hnominal own hown _ List.mem_cons_self)
    · intro hnot
      obtain ⟨front, own, hsplit, htrail⟩ := h.last
      obtain ⟨signature, hsignature, hname, -⟩ := h.renders front own [] hsplit
      rw [htrail] at hsignature
      cases hsignature
      refine ⟨own, hsplit ▸ List.mem_append_right _ (List.mem_singleton_self own), ?_⟩
      change unmarshal own.name = _
      rw [hname]
      exact (unmarshal_eq_self_iff (nominal_delegateName hnamed.name)).mpr hnot

end Function

namespace Interface

open Signature Delegate

variable {file source : String} {interface : Interface} {function : Function} {lines : List String}

theorem unmarshals_of_load (hload : load file source = .ok interface)
    (hmem : function ∈ interface.functions) (hdelegates : delegates interface.types function = .ok lines) :
    ∃ declared : List Delegate, lines = declared.flatMap Delegate.lines ∧
      function.Hoists interface.types declared ∧ function.Unmarshals interface.types declared := by
  obtain ⟨declared, rfl, htrails, horder⟩ := exists_of_delegates hdelegates
  have hhoists : function.Hoists interface.types declared := .of_inOrder htrails horder
  have hnamed := Function.named_of_sound ((load_sound hload).1.functions function hmem)
  exact ⟨declared, rfl, hhoists, hhoists.unmarshals hnamed hdelegates⟩

end Interface

namespace Sample

/-- A description of a function whose name has that of the handles in it. -/
def handles : String :=
"copyright = \"\"

[version]
major = 1
minor = 2
patch = 3

[constants]

[functions.YOGI_SafeHandleClose]
return_type = \"void\"

[functions.YOGI_SafeHandleClose.args]
handle = \"void*\"

[enums]

[flags]

[type_mappings]
void = [\"void\", \"void\", \"void\", \"None\"]
\"void*\" = [\"void*\", \"void*\", \"IntPtr\", \"c_void_p\"]
"

/-- The lines that declare the delegate type of a function, that do so in the mock library, and that
declare and load its installer. -/
def callLines (interface : Interface) (function : Function) :
    Option (List String) × Option (List String) × Option (List String) :=
  ((Signature.delegates interface.types function).toOption,
    (Signature.mockDelegates interface.types function).toOption,
    (function.csharpInstaller interface.types).toOption)

def closingLines : List String :=
  [ Signature.delegateAttribute,
    "        public delegate void SafeHandleCloseDelegate(SafeHandle handle);",
    "" ]

def mockClosingLines : List String :=
  [ Signature.delegateAttribute,
    "        public delegate void IntPtrCloseDelegate(IntPtr handle);",
    "" ]

def closingInstaller : List String :=
  ["", "        // MOCK_SafeHandleClose"] ++ mockClosingLines ++
    [ Signature.delegateAttribute,
      "        internal delegate void SafeHandleCloseMockDelegate(SafeHandleCloseDelegate fn);",
      "",
      "        internal static SafeHandleCloseMockDelegate MOCK_SafeHandleClose",
      "            = Yogi.Library.GetDelegateForFunction<SafeHandleCloseMockDelegate>(\"MOCK_SafeHandleClose\");" ]

set_option maxRecDepth 10000 in
theorem exists_handles : ∃ (interface : Interface) (function : Function),
    Interface.load "core_api.toml" handles = .ok interface ∧ interface.functions = [function] ∧
      callLines interface function
        = (some closingLines, some mockClosingLines, some closingInstaller) := by
  obtain ⟨interface, hload, hcalls⟩ : ∃ interface, Interface.load "core_api.toml" handles = .ok interface ∧
      interface.functions.map (callLines interface)
        = [(some closingLines, some mockClosingLines, some closingInstaller)] :=
    Interface.exists_load_of_described String.toList_ofList (by decide +kernel)
  obtain ⟨function, hfunctions, hlines⟩ := List.map_eq_singleton_iff.mp hcalls
  exact ⟨interface, function, hload, hfunctions, hlines⟩

end Sample

namespace Interface

open Signature Delegate

theorem unmarshals_of_load_handles : ∃ (interface : Interface) (function : Function),
    load "core_api.toml" Sample.handles = .ok interface ∧ function ∈ interface.functions ∧
      delegates interface.types function = .ok Sample.closingLines ∧
      ∃ declared : List Delegate, Sample.closingLines = declared.flatMap Delegate.lines ∧
        function.Hoists interface.types declared ∧ function.Unmarshals interface.types declared := by
  obtain ⟨interface, function, hload, hfunctions, hlines⟩ := Sample.exists_handles
  have hmem : function ∈ interface.functions := by simp [hfunctions]
  have hdelegates := except_toOption_eq_some_iff.mp (Prod.mk.inj hlines).1
  exact ⟨interface, function, hload, hmem, hdelegates, unmarshals_of_load hload hmem hdelegates⟩

/-- A function with the name of the handles in its own has another name in the mock library, where the
installer refers to it by the one that it has in the API. -/
theorem mockDelegates_rename : ∃ (interface : Interface) (function : Function),
    load "core_api.toml" Sample.handles = .ok interface ∧ function ∈ interface.functions ∧
      delegates interface.types function = .ok
        [ delegateAttribute, "        public delegate void SafeHandleCloseDelegate(SafeHandle handle);", ""] ∧
      mockDelegates interface.types function = .ok
        [ delegateAttribute, "        public delegate void IntPtrCloseDelegate(IntPtr handle);", ""] ∧
      function.csharpInstaller interface.types = .ok Sample.closingInstaller ∧
      "        internal delegate void SafeHandleCloseMockDelegate(SafeHandleCloseDelegate fn);"
        ∈ Sample.closingInstaller := by
  obtain ⟨interface, function, hload, hfunctions, hlines⟩ := Sample.exists_handles
  simp only [Sample.callLines, Prod.mk.injEq, except_toOption_eq_some_iff] at hlines
  obtain ⟨hdelegates, hmock, hinstaller⟩ := hlines
  exact ⟨interface, function, hload, by simp [hfunctions], hdelegates, hmock, hinstaller,
    by simp [Sample.closingInstaller]⟩

end Interface

end Bindery
