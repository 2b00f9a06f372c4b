import Bindery.Coverage
import Bindery.Proofs.Outcome

/-!
# Lookups of types

Which types have names once an interface is checked, and which renderers succeed then. A renderer looks
up the types of a function as they are nested in its callbacks, some by rules of their own; every type
that it looks up is one that the check has looked up.
-/

namespace Bindery

mutual

/-- What is gathered for an argument are its canonical types, at every depth of its callbacks. -/
theorem Argument.gatherTypes_eq : ∀ (gathered : List String) (arg : Argument),
    arg.gatherTypes gathered = gathered ++ arg.canonicalTypes
  | gathered, .scalar _ type => by rw [gatherTypes, canonicalTypes]
  | gathered, .callback _ returnType args => by
      rw [gatherTypes, gatherAll_eq (gathered ++ [returnType]) args, canonicalTypes, List.append_assoc,
        List.singleton_append]

theorem Argument.gatherAll_eq : ∀ (gathered : List String) (args : List Argument),
    gatherAll gathered args = gathered ++ listTypes args
  | gathered, [] => by rw [gatherAll, listTypes, List.append_nil]
  | gathered, arg :: rest => by
      rw [gatherAll, gatherTypes_eq gathered arg, gatherAll_eq (gathered ++ arg.canonicalTypes) rest,
        listTypes, List.append_assoc]

end

theorem Function.gatherTypes_eq (gathered : List String) (function : Function) :
    function.gatherTypes gathered = gathered ++ function.canonicalTypes := by
  rw [gatherTypes, Argument.gatherAll_eq, canonicalTypes, List.append_assoc, List.singleton_append]

theorem Function.foldl_gatherTypes (functions : List Function) (gathered : List String) :
    functions.foldl gatherTypes gathered = gathered ++ functions.flatMap canonicalTypes := by
  induction functions generalizing gathered with
  | nil => simp
  | cons function rest ih => rw [List.foldl_cons, ih, gatherTypes_eq, List.flatMap_cons, List.append_assoc]

/-- Every type of the functions of an interface, and that of every constant, has a name in a language. -/
structure Interface.Covers (interface : Interface) (language : Language) : Prop where
  functions : ∀ function ∈ interface.functions, ∀ type ∈ function.canonicalTypes,
    Succeeds (interface.types.nameOf type language)
  constants : ∀ constant ∈ interface.constants, Succeeds (constant.typeIn language)

namespace Interface

variable {interface : Interface} {language : Language}

theorem covers_of_countTypes (h : Succeeds (interface.countTypes language)) :
    interface.Covers language := by
  obtain ⟨count, h⟩ := h
  unfold countTypes at h
  obtain ⟨⟨⟩, htypes, h⟩ := except_bind_eq_ok_iff.mp h
  obtain ⟨⟨⟩, hconstants, -⟩ := except_bind_eq_ok_iff.mp h
  rw [Function.foldl_gatherTypes, List.nil_append] at htypes
  refine ⟨fun function hfunction type htype => ?_, fun constant hconstant => ?_⟩
  · have hmem : type ∈ interface.functions.flatMap Function.canonicalTypes :=
      List.mem_flatMap.mpr ⟨function, hfunction, htype⟩
    exact succeeds_discard.mp (succeeds_of_forM ⟨(), htypes⟩ type hmem)
  · exact succeeds_discard.mp (succeeds_of_forM ⟨(), hconstants⟩ constant hconstant)

theorem covers_of_checkTypes {languages : List Language} (h : Succeeds (interface.checkTypes languages)) :
    ∀ language ∈ languages, interface.Covers language := by
  induction languages with
  | nil => simp
  | cons first rest ih =>
      obtain ⟨count, h⟩ := h
      rw [checkTypes] at h
      obtain ⟨own, hown, h⟩ := except_bind_eq_ok_iff.mp h
      obtain ⟨others, hothers, -⟩ := except_bind_eq_ok_iff.mp h
      exact List.forall_mem_cons.mpr ⟨covers_of_countTypes ⟨own, hown⟩, ih ⟨others, hothers⟩⟩

/-- The check passes only if the flag sets have values and every target has names for all types. -/
theorem covers_of_check {coverage : List Coverage} (h : interface.check = .ok coverage) :
    interface.checkFlags = .ok () ∧
      ∀ target : Target, ∀ language ∈ target.emitter.languages, interface.Covers language := by
  unfold check at h
  obtain ⟨⟨⟩, hflags, h⟩ := except_bind_eq_ok_iff.mp h
  refine ⟨except_mapError_eq_ok_iff.mp hflags, fun target => covers_of_checkTypes ?_⟩
  have hmem : target ∈ Target.all := by cases target <;> decide
  obtain ⟨own, hown⟩ := succeeds_of_mapM ⟨coverage, h⟩ target hmem
  unfold Coverage.ofTarget at hown
  split at hown
  next lookups hlookups => exact ⟨lookups, hlookups⟩
  next => cases hown

end Interface

namespace Signature

variable {types : TypeMap}

mutual

theorem succeeds_cParameter : ∀ arg : Argument,
    (∀ type ∈ arg.canonicalTypes, Succeeds (types.nameOf type .c)) → Succeeds (cParameter types arg)
  | .scalar name type, h => by
      rw [cParameter]
      exact succeeds_bind (h type List.mem_cons_self) fun _ => succeeds_ok _
  | .callback name returnType args, h => by
      rw [cParameter]
      obtain ⟨hreturn, hargs⟩ := List.forall_mem_cons.mp h
      exact succeeds_bind hreturn fun _ =>
        succeeds_bind (succeeds_cParameters args hargs) fun _ => succeeds_ok _

theorem succeeds_cParameters : ∀ args : List Argument,
    (∀ type ∈ Argument.listTypes args, Succeeds (types.nameOf type .c)) →
      Succeeds (cParameters types args)
  | [], _ => succeeds_ok []
  | arg :: rest, h => by
      rw [cParameters]
      obtain ⟨harg, hrest⟩ := List.forall_mem_append.mp h
      exact succeeds_bind (succeeds_cParameter arg harg) fun _ =>
        succeeds_bind (succeeds_cParameters rest hrest) fun _ => succeeds_ok _

end

theorem succeeds_c {function : Function}
    (h : ∀ type ∈ function.canonicalTypes, Succeeds (types.nameOf type .c)) (declarator : String) :
    Succeeds (c types function declarator) := by
  obtain ⟨hreturn, hargs⟩ := List.forall_mem_cons.mp h
  exact succeeds_bind hreturn fun _ =>
    succeeds_bind (succeeds_cParameters function.args hargs) fun _ => succeeds_ok _

theorem succeeds_ctype {type : String} (h : Succeeds (types.nameOf type .python)) :
    Succeeds (ctype types type) := by
  unfold ctype
  split
  · exact succeeds_ok _
  · exact h

mutual

theorem succeeds_ctypesArgument : ∀ arg : Argument,
    (∀ type ∈ arg.canonicalTypes, Succeeds (types.nameOf type .python)) →
      Succeeds (ctypesArgument types arg)
  | .scalar name type, h => by
      rw [ctypesArgument]
      exact succeeds_ctype (h type List.mem_cons_self)
  | .callback name returnType args, h => by
      rw [ctypesArgument]
      obtain ⟨hreturn, hargs⟩ := List.forall_mem_cons.mp h
      exact succeeds_bind (succeeds_ctype hreturn) fun _ =>
        succeeds_bind (succeeds_ctypesArguments args hargs) fun _ => succeeds_ok _

theorem succeeds_ctypesArguments : ∀ args : List Argument,
    (∀ type ∈ Argument.listTypes args, Succeeds (types.nameOf type .python)) →
      Succeeds (ctypesArguments types args)
  | [], _ => succeeds_ok []
  | arg :: rest, h => by
      rw [ctypesArguments]
      obtain ⟨harg, hrest⟩ := List.forall_mem_append.mp h
      exact succeeds_bind (succeeds_ctypesArgument arg harg) fun _ =>
        succeeds_bind (succeeds_ctypesArguments rest hrest) fun _ => succeeds_ok _

end

theorem succeeds_ctypes {function : Function}
    (h : ∀ type ∈ function.canonicalTypes, Succeeds (types.nameOf type .python)) :
    Succeeds (ctypes types function) := by
  obtain ⟨hreturn, hargs⟩ := List.forall_mem_cons.mp h
  exact succeeds_bind (succeeds_ctype hreturn) fun _ =>
    succeeds_bind (succeeds_ctypesArguments function.args hargs) fun _ => succeeds_ok _

theorem succeeds_csharpReturn {type : String} (h : Succeeds (types.nameOf type .csharp)) :
    Succeeds (csharpReturn types type) := by
  unfold csharpReturn
  split
  · exact succeeds_ok _
  · exact h

theorem succeeds_csharpArgument {type : String} (h : Succeeds (types.nameOf type .csharp))
    (owner name : String) : Succeeds (csharpArgument types owner name type) := by
  unfold csharpArgument
  split
  · exact succeeds_ok _
  split
  · exact succeeds_ok _
  split
  · exact succeeds_ok _
  · exact h

mutual

theorem succeeds_csharpParameter (owner : String) : ∀ arg : Argument,
    (∀ type ∈ arg.canonicalTypes, Succeeds (types.nameOf type .csharp)) →
      Succeeds (csharpParameter types owner arg)
  | .scalar name type, h => by
      rw [csharpParameter]
      exact succeeds_bind (succeeds_csharpArgument (h type List.mem_cons_self) owner name)
        fun _ => succeeds_ok _
  | .callback name returnType args, h => by
      rw [csharpParameter]
      obtain ⟨hreturn, hargs⟩ := List.forall_mem_cons.mp h
      exact succeeds_bind (succeeds_csharpParameters (callbackName owner name) args hargs) fun _ =>
        succeeds_bind (succeeds_csharpReturn hreturn) fun _ => succeeds_ok _

theorem succeeds_csharpParameters (owner : String) : ∀ args : List Argument,
    (∀ type ∈ Argument.listTypes args, Succeeds (types.nameOf type .csharp)) →
      Succeeds (csharpParameters types owner args)
  | [], _ => succeeds_ok _
  | arg :: rest, h => by
      rw [csharpParameters]
      obtain ⟨harg, hrest⟩ := List.forall_mem_append.mp h
      exact succeeds_bind (succeeds_csharpParameter owner arg harg) fun _ =>
        succeeds_bind (succeeds_csharpParameters owner rest hrest) fun _ => succeeds_ok _

end

theorem succeeds_delegates {function : Function}
    (h : ∀ type ∈ function.canonicalTypes, Succeeds (types.nameOf type .csharp)) :
    Succeeds (delegates types function) := by
  obtain ⟨hreturn, hargs⟩ := List.forall_mem_cons.mp h
  exact succeeds_bind (succeeds_csharpParameters function.name function.args hargs) fun _ =>
    succeeds_bind (succeeds_csharpReturn hreturn) fun _ => succeeds_ok _

end Signature

/-! ## Functions -/

namespace Function

open Signature

section C

variable {types : TypeMap} {function : Function}
  (h : ∀ type ∈ function.canonicalTypes, Succeeds (types.nameOf type .c))
include h

theorem succeeds_headerLine : Succeeds (headerLine types function) :=
  succeeds_bind (succeeds_c h function.name) fun _ => succeeds_ok _

theorem succeeds_mockLines (defaults : String) (listing : Listing) :
    Succeeds (mockLines types defaults listing function) := by
  have hreturn := h function.returnType List.mem_cons_self
  exact succeeds_bind (succeeds_c h function.name) fun _ =>
    succeeds_bind hreturn fun _ => succeeds_ok _

theorem succeeds_cppPointer (listing : Listing) : Succeeds (cppPointer types listing function) :=
  succeeds_bind (succeeds_c h _) fun _ => succeeds_bind (succeeds_c h _) fun _ => succeeds_ok _

theorem succeeds_cppInstaller : Succeeds (cppInstaller types function) :=
  succeeds_bind (succeeds_c h _) fun _ => succeeds_ok _

theorem succeeds_cppInstallerLoader : Succeeds (cppInstallerLoader types function) :=
  succeeds_bind (succeeds_c h _) fun _ => succeeds_ok _

end C

section CSharp

variable {types : TypeMap} {function : Function}
  (h : ∀ type ∈ function.canonicalTypes, Succeeds (types.nameOf type .csharp))
include h

theorem succeeds_csharpLoader : Succeeds (csharpLoader types function) :=
  succeeds_bind (succeeds_delegates h) fun _ => succeeds_ok _

theorem succeeds_csharpInstaller : Succeeds (csharpInstaller types function) := by
  have hdelegates : Succeeds (mockDelegates types function) :=
    succeeds_bind (succeeds_delegates h) fun _ => succeeds_ok _
  exact succeeds_bind hdelegates fun _ => succeeds_ok _

end CSharp

section Python

variable {types : TypeMap} {function : Function}
  (h : ∀ type ∈ function.canonicalTypes, Succeeds (types.nameOf type .python))
include h

theorem succeeds_pythonPrototype : Succeeds (pythonPrototype types function) := by
  obtain ⟨hreturn, hargs⟩ := List.forall_mem_cons.mp h
  have hresult : Succeeds (pythonResult types function) := by
    unfold pythonResult
    split
    · exact succeeds_ok _
    · exact succeeds_ctype hreturn
  exact succeeds_bind hresult fun _ =>
    succeeds_bind (succeeds_ctypesArguments function.args hargs) fun _ => succeeds_ok _

theorem succeeds_pythonInstaller (keepalive : String) :
    Succeeds (pythonInstaller types keepalive function) :=
  succeeds_bind (succeeds_ctypes h) fun _ => succeeds_ok _

end Python

end Function

/-! ## Constants -/

namespace Constant

variable {constant : Constant}

theorem succeeds_definition (h : Succeeds (constant.typeIn .c)) : Succeeds constant.definition := by
  unfold definition
  refine succeeds_bind h fun type => ?_
  split <;> exact succeeds_ok _

theorem succeeds_row (hc : Succeeds (constant.typeIn .c)) (hcpp : Succeeds (constant.typeIn .cpp)) :
    Succeeds (row constant) :=
  succeeds_bind hc fun _ => succeeds_bind hcpp fun _ => succeeds_ok _

end Constant

end Bindery
