import Bindery.Proofs.Outcome
import Bindery.Render.Signature
import Mathlib.Data.List.Nodup

/-!
# Hoisted delegate types

In C# every signature of a function has a delegate type: those of its callbacks, at whatever depth, and
that of the function itself. The types are declared in post-order. So a parameter that is a callback has a
type that is declared further up, under the name by which the parameter refers to it.
-/

namespace Bindery

open Text Naming

/-- The way from a function to one of its signatures: the number among the arguments, and the name, of
each callback that is entered. -/
abbrev Trail := List (Nat × String)

/-- The name of a function or of the callback at the end of a trail, as C# has it. -/
def Trail.owner (function : String) (trail : Trail) : String :=
  trail.foldl (fun owner step => Signature.callbackName owner step.2) function

mutual

/-- The trails to the signatures of the argument with a number, from the callbacks within it outwards. -/
def Argument.trails (number : Nat) : Argument → List Trail
  | .scalar _ _ => []
  | .callback name _ args => (Argument.listTrails 0 args ++ [[]]).map ((number, name) :: ·)

def Argument.listTrails (number : Nat) : List Argument → List Trail
  | [] => []
  | arg :: rest => arg.trails number ++ Argument.listTrails (number + 1) rest

end

namespace Function

open Signature

/-- The trails to all signatures of a function in post-order: those of the callbacks, in the order of the
arguments, and then that of the function itself. -/
def trails (function : Function) : List Trail := Argument.listTrails 0 function.args ++ [[]]

/-- The signature at the end of a trail. A callback goes by the name that it has in C#. -/
def signatureAt? (function : Function) : Trail → Option Function
  | [] => some function
  | (number, name) :: rest =>
      match function.args[number]? with
      | some (.callback own returnType args) =>
          if own = name then signatureAt? ⟨callbackName function.name name, returnType, args⟩ rest
          else none
      | _ => none

end Function

namespace Signature

/-- The declaration of a delegate type for the signature at the end of a trail. -/
structure Delegate where
  trail : Trail
  name : String
  returnType : String
  /-- the types of the parameters with their names -/
  parameters : List (String × String)
deriving DecidableEq, Repr

namespace Delegate

def parameterText (parameter : String × String) : String := parameter.1 ++ " " ++ parameter.2

/-- The three lines of a declaration: its attribute, the declaration, and a blank line. -/
def lines (own : Delegate) : List String :=
  [delegateAttribute,
    "        public delegate " ++ own.returnType ++ " " ++ own.name ++ "("
      ++ join ", " (own.parameters.map parameterText) ++ ");",
    ""]

/-- The declaration one callback further down. -/
def within (step : Nat × String) (own : Delegate) : Delegate := { own with trail := step :: own.trail }

@[simp]
theorem lines_within (step : Nat × String) (own : Delegate) : (own.within step).lines = own.lines := rfl

/-- A parameter stands for the argument with a number: it has the argument's name, and its type is that of
the value, or else the delegate type that has been declared for the callback. -/
def StandsFor (types : TypeMap) (before : List Delegate) (trail : Trail) (owner : String)
    (entry : Argument × Nat) (parameter : String × String) : Prop :=
  parameter.2 = entry.1.name ∧
    match entry.1 with
    | .scalar name type => csharpArgument types owner name type = .ok parameter.1
    | .callback name _ _ => ∃ earlier ∈ before,
        earlier.trail = trail ++ [(entry.2, name)] ∧ parameter.1 = earlier.name

/-- The declaration is that of the signature at the end of its trail, given the declarations before it. -/
def Renders (types : TypeMap) (function : Function) (before : List Delegate) (own : Delegate) : Prop :=
  ∃ signature, function.signatureAt? own.trail = some signature ∧
    own.name = delegateName signature.name ∧
    csharpReturn types signature.returnType = .ok own.returnType ∧
    List.Forall₂ (StandsFor types before own.trail signature.name) signature.args.zipIdx own.parameters

/-- Each declaration is rendered when those before it have been. -/
def InOrder (types : TypeMap) (function : Function) : List Delegate → List Delegate → Prop
  | _, [] => True
  | before, own :: rest =>
      own.Renders types function before ∧ InOrder types function (before ++ [own]) rest

end Delegate

end Signature

/-! ## Trails -/

namespace Argument

variable {arg : Argument} {args : List Argument} {number : Nat} {trail : Trail}

theorem mem_listTrails_iff : trail ∈ listTrails number args ↔
    ∃ (index : Nat) (arg : Argument), args[index]? = some arg ∧ trail ∈ arg.trails (number + index) := by
  induction args generalizing number with
  | nil => simp [listTrails]
  | cons first rest ih =>
      rw [listTrails, List.mem_append, ih]
      constructor
      · rintro (hfirst | ⟨index, arg, harg, hmem⟩)
        · exact ⟨0, first, rfl, hfirst⟩
        · refine ⟨index + 1, arg, by simpa using harg, ?_⟩
          rwa [← Nat.add_assoc, Nat.add_right_comm]
      · rintro ⟨- | index, arg, harg, hmem⟩
        · cases harg
          exact Or.inl hmem
        · refine Or.inr ⟨index, arg, by simpa using harg, ?_⟩
          rwa [Nat.add_right_comm, Nat.add_assoc]

theorem exists_of_mem_trails (h : trail ∈ arg.trails number) :
    ∃ name rest, trail = (number, name) :: rest := by
  cases arg with
  | scalar name type => simp [trails] at h
  | callback name returnType args =>
      rw [trails] at h
      obtain ⟨rest, -, rfl⟩ := List.mem_map.mp h
      exact ⟨name, rest, rfl⟩

mutual

theorem nodup_trails (number : Nat) : ∀ arg : Argument, (arg.trails number).Nodup
  | .scalar _ _ => by simp [trails]
  | .callback name returnType args => by
      rw [trails]
      exact (nodup_listTrails_append args).map List.cons_injective

/-- No callback has the trail of the signature that it belongs to. -/
theorem nodup_listTrails_append : ∀ args : List Argument, (listTrails 0 args ++ [[]]).Nodup := by
  intro args
  refine List.nodup_append.mpr ⟨nodup_listTrails 0 args, by simp, ?_⟩
  intro trail hmem other hnil
  obtain ⟨index, arg, -, htrail⟩ := mem_listTrails_iff.mp hmem
  obtain ⟨name, rest, rfl⟩ := exists_of_mem_trails htrail
  rw [List.mem_singleton.mp hnil]
  simp

theorem nodup_listTrails (number : Nat) : ∀ args : List Argument, (listTrails number args).Nodup
  | [] => by simp [listTrails]
  | arg :: rest => by
      rw [listTrails]
      refine List.nodup_append.mpr ⟨nodup_trails number arg, nodup_listTrails (number + 1) rest, ?_⟩
      intro trail hfirst behind hrest heq
      obtain ⟨name, others, rfl⟩ := exists_of_mem_trails hfirst
      obtain ⟨index, other, -, hother⟩ := mem_listTrails_iff.mp hrest
      obtain ⟨_, _, rfl⟩ := exists_of_mem_trails hother
      simp only [List.cons.injEq, Prod.mk.injEq] at heq
      omega

end

end Argument

namespace Function

open Signature

variable {function signature : Function} {trail front : Trail} {step : Nat × String}

theorem nodup_trails (function : Function) : function.trails.Nodup :=
  Argument.nodup_listTrails_append function.args

/-- The first step of a trail enters a callback. -/
theorem signatureAt?_cons : function.signatureAt? (step :: trail) = some signature ↔
    ∃ returnType args, function.args[step.1]? = some (.callback step.2 returnType args) ∧
      signatureAt? ⟨callbackName function.name step.2, returnType, args⟩ trail = some signature := by
  obtain ⟨number, name⟩ := step
  rw [signatureAt?]
  split
  next own returnType args harg =>
    split
    next heq =>
      subst heq
      simp [harg]
    next hne => simp [harg, hne]
  next hnone =>
    simp only [reduceCtorEq, false_iff, not_exists, not_and]
    intro returnType args harg
    exact absurd harg (hnone name returnType args)

theorem mem_trails_iff :
    trail ∈ function.trails ↔ ∃ signature, function.signatureAt? trail = some signature := by
  induction trail generalizing function with
  | nil => simp [trails, signatureAt?]
  | cons step rest ih =>
      have hne : step :: rest ∉ [([] : Trail)] := by simp
      rw [trails, List.mem_append, or_iff_left hne, Argument.mem_listTrails_iff]
      simp only [Nat.zero_add, signatureAt?_cons]
      constructor
      · rintro ⟨number, arg, harg, hmem⟩
        cases arg with
        | scalar name type => simp [Argument.trails] at hmem
        | callback name returnType args =>
            rw [Argument.trails] at hmem
            obtain ⟨others, hothers, heq⟩ := List.mem_map.mp hmem
            cases heq
            obtain ⟨signature, hsignature⟩ :=
              (@ih ⟨callbackName function.name name, returnType, args⟩).mp hothers
            exact ⟨signature, returnType, args, harg, hsignature⟩
      · rintro ⟨signature, returnType, args, harg, hsignature⟩
        refine ⟨step.1, _, harg, ?_⟩
        rw [Argument.trails]
        exact List.mem_map_of_mem (ih.mpr ⟨signature, hsignature⟩)

theorem name_of_signatureAt? (h : function.signatureAt? trail = some signature) :
    signature.name = trail.owner function.name := by
  induction trail generalizing function with
  | nil =>
      cases h
      rfl
  | cons step rest ih =>
      obtain ⟨returnType, args, -, hrest⟩ := signatureAt?_cons.mp h
      exact ih hrest

end Function

/-! ## Declarations -/

namespace Signature

namespace Delegate

variable {types : TypeMap} {function : Function} {before after first second declared : List Delegate}
  {own : Delegate} {trail : Trail} {owner : String} {entry : Argument × Nat}
  {parameter : String × String}

theorem StandsFor.mono (h : StandsFor types before trail owner entry parameter) (hsub : before ⊆ after) :
    StandsFor types after trail owner entry parameter := by
  obtain ⟨hname, htype⟩ := h
  refine ⟨hname, ?_⟩
  split
  next harg =>
    rw [harg] at htype
    exact htype
  next harg =>
    rw [harg] at htype
    obtain ⟨earlier, hmem, hearlier⟩ := htype
    exact ⟨earlier, hsub hmem, hearlier⟩

theorem Renders.mono (h : own.Renders types function before) (hsub : before ⊆ after) :
    own.Renders types function after := by
  obtain ⟨signature, hsignature, hname, hreturn, hparameters⟩ := h
  exact ⟨signature, hsignature, hname, hreturn, hparameters.imp fun _ _ hstands => hstands.mono hsub⟩

theorem InOrder.mono (h : InOrder types function before declared) (hsub : before ⊆ after) :
    InOrder types function after declared := by
  induction declared generalizing before after with
  | nil => trivial
  | cons own rest ih =>
      exact ⟨h.1.mono hsub, ih h.2 (List.append_subset.mpr
        ⟨List.subset_append_of_subset_left _ hsub, List.subset_append_right _ _⟩)⟩

theorem inOrder_append : InOrder types function before (first ++ second) ↔
    InOrder types function before first ∧ InOrder types function (before ++ first) second := by
  induction first generalizing before with
  | nil => simp [InOrder]
  | cons own rest ih => simp [InOrder, ih, and_assoc]

/-- In order, each declaration is rendered with all those that stand before it. -/
theorem InOrder.renders (h : InOrder types function before declared) {front back : List Delegate}
    (hsplit : declared = front ++ own :: back) : own.Renders types function (before ++ front) := by
  rw [hsplit, inOrder_append] at h
  exact h.2.1

theorem StandsFor.within {step : Nat × String} (h : StandsFor types before trail owner entry parameter) :
    StandsFor types (before.map (·.within step)) (step :: trail) owner entry parameter := by
  obtain ⟨hname, htype⟩ := h
  refine ⟨hname, ?_⟩
  split
  next harg =>
    rw [harg] at htype
    exact htype
  next harg =>
    rw [harg] at htype
    obtain ⟨earlier, hmem, htrail, htype⟩ := htype
    exact ⟨earlier.within step, List.mem_map_of_mem hmem, congrArg (step :: ·) htrail, htype⟩

section Within

variable (step : Nat × String) {returnType : String} {args : List Argument}
  (harg : function.args[step.1]? = some (.callback step.2 returnType args))
include harg

/-- What is in order for a callback is in order for the function that takes it, one step further down. -/
theorem InOrder.within
    (h : InOrder types ⟨callbackName function.name step.2, returnType, args⟩ before declared) :
    InOrder types function (before.map (·.within step)) (declared.map (·.within step)) := by
  induction declared generalizing before with
  | nil => trivial
  | cons own rest ih =>
      obtain ⟨⟨signature, hsignature, hname, hreturn, hparameters⟩, hrest⟩ := h
      refine ⟨⟨signature, Function.signatureAt?_cons.mpr ⟨returnType, args, harg, hsignature⟩, hname,
        hreturn, hparameters.imp fun _ _ hstands => hstands.within⟩, ?_⟩
      have hnext := ih hrest
      rwa [List.map_append] at hnext

end Within

end Delegate

open Delegate

variable {types : TypeMap} {function : Function}

/-- The declarations of a callback come before its own, and all of them are within it. -/
theorem exists_of_callback {number : Nat} {name returnType token : String} {args : List Argument}
    {declared : List Delegate} {parameters : List (String × String)}
    (harg : function.args[number]? = some (.callback name returnType args))
    (htoken : csharpReturn types returnType = .ok token)
    (htrails : declared.map trail = Argument.listTrails 0 args)
    (horder : InOrder types ⟨callbackName function.name name, returnType, args⟩ [] declared)
    (hparameters : List.Forall₂ (StandsFor types declared [] (callbackName function.name name))
      args.zipIdx parameters) :
    ∃ all : List Delegate,
      declared.flatMap Delegate.lines ++ delegateLines (callbackName function.name name) token
          (parameters.map parameterText) = all.flatMap Delegate.lines ∧
        all.map trail = (Argument.callback name returnType args).trails number ∧
        InOrder types function [] all ∧
        StandsFor types all [] function.name (.callback name returnType args, number)
          (delegateName (callbackName function.name name), name) := by
  let own : Delegate := ⟨[], delegateName (callbackName function.name name), token, parameters⟩
  have hown : own.Renders types ⟨callbackName function.name name, returnType, args⟩ ([] ++ declared) :=
    ⟨_, rfl, rfl, htoken, hparameters⟩
  have hall : InOrder types ⟨callbackName function.name name, returnType, args⟩ [] (declared ++ [own]) :=
    inOrder_append.mpr ⟨horder, hown, trivial⟩
  refine ⟨(declared ++ [own]).map (·.within (number, name)), ?_, ?_, ?_, rfl, ?_⟩
  · rw [List.flatMap_map, List.flatMap_append]
    simp only [lines_within, List.flatMap_singleton]
    rfl
  · rw [Argument.trails, ← htrails]
    simp [Delegate.within, own]
  · exact InOrder.within (number, name) harg hall
  · exact ⟨own.within (number, name), by simp, rfl, rfl⟩

mutual

/-- An argument hoists the declarations of its signatures, and its parameter refers to them. -/
theorem exists_of_csharpParameter {hoisted : List String} {text : String} :
    ∀ (arg : Argument) (function : Function) (front rest : List Argument),
      function.args = front ++ arg :: rest →
      csharpParameter types function.name arg = .ok (hoisted, text) →
      ∃ declared parameter, hoisted = declared.flatMap Delegate.lines ∧ text = parameterText parameter ∧
        declared.map trail = arg.trails front.length ∧ InOrder types function [] declared ∧
        StandsFor types declared [] function.name (arg, front.length) parameter
  | .scalar name type, _, _, _, _, h => by
      rw [csharpParameter] at h
      obtain ⟨token, htoken, h⟩ := except_bind_eq_ok_iff.mp h
      cases h
      exact ⟨[], (token, name), rfl, rfl, by simp [Argument.trails], trivial, rfl, htoken⟩
  | .callback name returnType args, function, front, _, hargs, h => by
      rw [csharpParameter] at h
      obtain ⟨⟨inner, texts⟩, hinner, h⟩ := except_bind_eq_ok_iff.mp h
      obtain ⟨token, htoken, h⟩ := except_bind_eq_ok_iff.mp h
      cases h
      obtain ⟨declared, parameters, rfl, rfl, htrails, horder, hparameters⟩ :=
        exists_of_csharpParameters args ⟨callbackName function.name name, returnType, args⟩ [] rfl hinner
      have harg : function.args[front.length]? = some (.callback name returnType args) := by
        rw [hargs]
        simp
      obtain ⟨all, hlines, htrails, horder, hstands⟩ :=
        exists_of_callback harg htoken htrails horder hparameters
      refine ⟨all, (delegateName (callbackName function.name name), name), hlines, ?_, htrails, horder,
        hstands⟩
      rw [parameterText]

theorem exists_of_csharpParameters {hoisted texts : List String} :
    ∀ (args : List Argument) (function : Function) (front : List Argument),
      function.args = front ++ args →
      csharpParameters types function.name args = .ok (hoisted, texts) →
      ∃ declared parameters,
        hoisted = declared.flatMap Delegate.lines ∧ texts = parameters.map parameterText ∧
        declared.map trail = Argument.listTrails front.length args ∧ InOrder types function [] declared ∧
        List.Forall₂ (StandsFor types declared [] function.name) (args.zipIdx front.length) parameters
  | [], _, _, _, h => by
      cases h
      exact ⟨[], [], rfl, rfl, rfl, trivial, .nil⟩
  | arg :: rest, function, front, hargs, h => by
      rw [csharpParameters] at h
      obtain ⟨⟨own, text⟩, hown, h⟩ := except_bind_eq_ok_iff.mp h
      obtain ⟨⟨others, texts⟩, hothers, h⟩ := except_bind_eq_ok_iff.mp h
      cases h
      have hrest : function.args = (front ++ [arg]) ++ rest := by simp [hargs]
      obtain ⟨first, parameter, rfl, rfl, hfirst, hfirstOrder, hparameter⟩ :=
        exists_of_csharpParameter arg function front rest hargs hown
      obtain ⟨second, parameters, rfl, rfl, hsecond, hsecondOrder, hparameters⟩ :=
        exists_of_csharpParameters rest function (front ++ [arg]) hrest hothers
      rw [List.length_append, List.length_singleton] at hsecond hparameters
      refine ⟨first ++ second, parameter :: parameters, by simp, rfl, ?_, ?_, ?_⟩
      · rw [List.map_append, hfirst, hsecond, Argument.listTrails]
      · exact inOrder_append.mpr ⟨hfirstOrder, hsecondOrder.mono (List.nil_subset _)⟩
      · rw [List.zipIdx_cons]
        exact .cons (hparameter.mono (List.subset_append_left _ _))
          (hparameters.imp fun _ _ hstands => hstands.mono (List.subset_append_right _ _))

end

/-- A function declares a delegate type for each of its signatures, in order. -/
theorem exists_of_delegates {lines : List String} (h : delegates types function = .ok lines) :
    ∃ declared : List Delegate, lines = declared.flatMap Delegate.lines ∧
      declared.map trail = function.trails ∧ InOrder types function [] declared := by
  obtain ⟨⟨hoisted, texts⟩, htexts, h⟩ := except_bind_eq_ok_iff.mp h
  obtain ⟨token, htoken, h⟩ := except_bind_eq_ok_iff.mp h
  cases h
  obtain ⟨declared, parameters, rfl, rfl, htrails, horder, hparameters⟩ :=
    exists_of_csharpParameters function.args function [] rfl htexts
  refine ⟨declared ++ [⟨[], delegateName function.name, token, parameters⟩], ?_, ?_, ?_⟩
  · simp [Delegate.lines, delegateLines]
  · rw [List.map_append, htrails]
    rfl
  · exact inOrder_append.mpr ⟨horder, ⟨function, rfl, rfl, htoken, hparameters⟩, trivial⟩

end Signature

namespace Function

open Signature Delegate

/-- The declarations are those of the signatures of a function, each of them once and in post-order, and
each is written in terms of those before it. -/
structure Hoists (types : TypeMap) (function : Function) (declared : List Delegate) : Prop where
  trails : declared.map trail = function.trails
  once : (declared.map trail).Nodup
  each : ∀ place, place ∈ declared.map trail ↔ ∃ signature, function.signatureAt? place = some signature
  last : ∃ front own, declared = front ++ [own] ∧ own.trail = []
  renders : ∀ front own back, declared = front ++ own :: back → own.Renders types function front

variable {types : TypeMap} {function : Function} {declared : List Delegate} {lines : List String}

theorem Hoists.of_inOrder (htrails : declared.map trail = function.trails)
    (horder : InOrder types function [] declared) : function.Hoists types declared where
  trails := htrails
  once := htrails ▸ nodup_trails function
  each place := htrails ▸ mem_trails_iff
  last := by
    rw [Function.trails] at htrails
    obtain ⟨front, back, rfl, -, hback⟩ := List.map_eq_append_iff.mp htrails
    obtain ⟨own, rfl, hown⟩ := List.map_eq_singleton_iff.mp hback
    exact ⟨front, own, rfl, hown⟩
  renders _ _ _ hsplit := horder.renders hsplit

/-- The delegate types of a function are declared one by one, each before its first use. -/
theorem exists_hoists (h : delegates types function = .ok lines) :
    ∃ declared : List Delegate, lines = declared.flatMap Delegate.lines ∧ function.Hoists types declared := by
  obtain ⟨declared, hlines, htrails, horder⟩ := exists_of_delegates h
  exact ⟨declared, hlines, .of_inOrder htrails horder⟩

/-- A function with a callback within a callback, whose own name has the prefix of the API twice. -/
def repeatedPrefix : Function where
  name := "YOGI_YOGI_Post"
  returnType := "int"
  args := [.callback "fn" "void" [.callback "done" "int" [], .scalar "res" "int"], .scalar "n" "int"]

theorem exists_hoists_repeatedPrefix :
    ∃ declared : List Delegate,
      [ delegateAttribute, "        public delegate int PostFnDoneDelegate();", "",
        delegateAttribute, "        public delegate void PostFnDelegate(PostFnDoneDelegate done, int res);", "",
        delegateAttribute, "        public delegate int YOGI_PostDelegate(PostFnDelegate fn, int n);", "" ]
          = declared.flatMap Delegate.lines ∧
      repeatedPrefix.Hoists
        [("int", ⟨none, none, some "int", none⟩), ("void", ⟨none, none, some "void", none⟩)] declared :=
  exists_hoists rfl

end Function

end Bindery
