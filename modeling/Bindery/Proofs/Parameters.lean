import Bindery.Proofs.Entries
import Bindery.Proofs.FreeTexts

/-!
# Parameters of functions and callbacks

The signatures of a function in C, in Python and in C# have the same parameters: cut at the commas outside
parentheses, each has one entry for every argument, in their order. So it is for every callback, at whatever
depth: in its declarator in C, in its prototype in Python, and in its own delegate type in C#.
-/

namespace Bindery

open Text Naming

namespace Signature

/-- How a language writes the arguments of a signature: the text of one, and where the texts for a callback's
own arguments stand, which are the entries of its parameters. -/
structure Manner where
  renders : (owner : String) → Argument → (text : String) → Prop
  callback : (owner name returnType : String) → (texts : List String) → (text : String) → Prop

/-- An argument is rendered as the text. The parameters of a callback have as many entries as it has arguments,
each of which is written for the argument at its place, to any depth. -/
inductive Written (manner : Manner) : (owner : String) → Argument → (text : String) → Prop
  | scalar {owner name type text : String} (htext : manner.renders owner (.scalar name type) text) :
      Written manner owner (.scalar name type) text
  | callback {owner name returnType text : String} {args : List Argument} {texts : List String}
      (htext : manner.renders owner (.callback name returnType args) text)
      (hentries : manner.callback owner name returnType texts text) (hlength : args.length = texts.length)
      (hargs : ∀ entry ∈ args.zip texts, Written manner (callbackName owner name) entry.1 entry.2) :
      Written manner owner (.callback name returnType args) text

/-- In C a callback is a declarator with its parameters behind it. -/
def cManner (types : TypeMap) : Manner where
  renders _ arg text := cParameter types arg = .ok text
  callback _ name returnType texts text := ∃ token parameters,
    types.nameOf returnType .c = .ok token ∧
      text = token ++ " (*" ++ name ++ ")(" ++ parameters ++ ")" ∧ entries parameters = texts

/-- In Python a callback is a prototype, with its parameters behind the type that it returns. -/
def ctypesManner (types : TypeMap) : Manner where
  renders _ arg text := ctypesArgument types arg = .ok text
  callback _ _ returnType texts text := ∃ token parameters,
    ctype types returnType = .ok token ∧
      text = "CFUNCTYPE(" ++ parameters ++ ")" ∧ entries parameters = token :: texts

/-- The declaration of a delegate type. -/
def delegate (owner token parameters : String) : List String :=
  [delegateAttribute,
    "        public delegate " ++ token ++ " " ++ delegateName owner ++ "(" ++ parameters ++ ");",
    ""]

/-- In C# a callback has a delegate type of its own. What an argument hoists is among the lines. -/
def csharpManner (types : TypeMap) (lines : List String) : Manner where
  renders owner arg text := ∃ hoisted,
    csharpParameter types owner arg = .ok (hoisted, text) ∧ hoisted <:+: lines
  callback owner name returnType texts text :=
    text = delegateName (callbackName owner name) ++ " " ++ name ∧ ∃ token parameters,
      csharpReturn types returnType = .ok token ∧
        delegate (callbackName owner name) token parameters <:+: lines ∧ entries parameters = texts

/-- The texts of arguments can be entries of lists, and what a callback has as its parameters are the entries
for its own arguments if these can. -/
structure Manner.Separates (manner : Manner) : Prop where
  scalar : ∀ {owner name type text : String}, Nominal name →
    manner.renders owner (.scalar name type) text → Listable text
  callback : ∀ {owner name returnType text : String} {args : List Argument}, Nominal owner → Nominal name →
    manner.renders owner (.callback name returnType args) text → ∃ texts,
      List.Forall₂ (manner.renders (callbackName owner name)) args texts ∧
        ((∀ text ∈ texts, Listable text) → manner.callback owner name returnType texts text ∧ Listable text)

section Separates

variable {manner : Manner} {owner text : String} {arg : Argument} {args : List Argument} {texts : List String}

theorem forall₂_written (hargs : ∀ arg ∈ args, ∀ text, manner.renders owner arg text →
      Written manner owner arg text ∧ Listable text)
    (h : List.Forall₂ (manner.renders owner) args texts) :
    List.Forall₂ (Written manner owner) args texts ∧ ∀ text ∈ texts, Listable text := by
  induction h with
  | nil => exact ⟨.nil, List.forall_mem_nil _⟩
  | cons htext _ ih =>
      obtain ⟨harg, hrest⟩ := List.forall_mem_cons.mp hargs
      obtain ⟨hwritten, hentry⟩ := harg _ htext
      obtain ⟨hothers, hentries⟩ := ih hrest
      exact ⟨.cons hwritten hothers, List.forall_mem_cons.mpr ⟨hentry, hentries⟩⟩

/-- What holds at one level holds at every depth. -/
theorem Manner.Separates.written (hmanner : manner.Separates) (hnamed : arg.Named) (howner : Nominal owner)
    (h : manner.renders owner arg text) : Written manner owner arg text ∧ Listable text := by
  induction hnamed generalizing owner text with
  | scalar hname => exact ⟨.scalar h, hmanner.scalar hname h⟩
  | callback hname _ ih =>
      obtain ⟨texts, htexts, hcallback⟩ := hmanner.callback howner hname h
      have hown := nominal_callbackName howner hname
      obtain ⟨hwritten, hlistable⟩ := forall₂_written (fun arg harg text => ih arg harg hown) htexts
      obtain ⟨hentries, htext⟩ := hcallback hlistable
      obtain ⟨hlength, hargs⟩ := List.forall₂_iff_zip.mp hwritten
      exact ⟨.callback h hentries hlength fun entry hmem => hargs hmem, htext⟩

theorem Manner.Separates.forall₂ (hmanner : manner.Separates) (hnamed : ∀ arg ∈ args, arg.Named)
    (howner : Nominal owner) (h : List.Forall₂ (manner.renders owner) args texts) :
    List.Forall₂ (Written manner owner) args texts ∧ ∀ text ∈ texts, Listable text :=
  forall₂_written (fun arg harg _ => hmanner.written (hnamed arg harg) howner) h

end Separates

section Renderers

variable {types : TypeMap} {args : List Argument} {texts lines : List String}
  {owner token name type text : String}

theorem listable_named (h : IsEntry token) (hname : Nominal name) : Listable (token ++ " " ++ name) where
  entry := (h.append (by decide)).append (isEntry_of_nominal hname)
  nonempty := by simp [String.append_eq_empty_iff]

theorem isEntry_parameters (h : ∀ text ∈ texts, Listable text) : IsEntry ("(" ++ join ", " texts ++ ")") :=
  (balanced_join h).parenthesized

theorem isEntry_pointer (hname : Nominal name) : IsEntry ("(*" ++ name ++ ")") := by
  have hstar : Balanced ("*" ++ name) := Balanced.append (by decide) (isEntry_of_nominal hname).balanced
  have hopened : "(*" ++ name = "(" ++ ("*" ++ name) := by
    rw [← String.append_assoc]
    rfl
  rw [hopened]
  exact hstar.parenthesized

theorem declaration_eq (returnType declarator : String) (parameters : List String) :
    declaration returnType declarator parameters
      = returnType ++ " " ++ declarator ++ ("(" ++ join ", " parameters ++ ")") := by
  simp only [declaration, String.append_assoc]

theorem listable_declaration {declarator : String} (h : IsEntry token) (hdeclarator : IsEntry declarator)
    (htexts : ∀ text ∈ texts, Listable text) : Listable (declaration token declarator texts) := by
  rw [declaration_eq]
  constructor
  · exact ((h.append (by decide)).append hdeclarator).append (isEntry_parameters htexts)
  · simp [String.append_eq_empty_iff]

theorem cParameters_eq_mapM : cParameters types args = args.mapM (cParameter types) := by
  induction args with
  | nil => rfl
  | cons arg rest ih => rw [cParameters, List.mapM_cons, ih]

theorem forall₂_cParameters (h : cParameters types args = .ok texts) :
    List.Forall₂ (fun arg text => cParameter types arg = .ok text) args texts := by
  rw [cParameters_eq_mapM] at h
  exact (forall₂_of_mapM h).flip

theorem exists_of_cParameter_scalar (h : cParameter types (.scalar name type) = .ok text) :
    ∃ token, types.nameOf type .c = .ok token ∧ text = token ++ " " ++ name := by
  rw [cParameter] at h
  obtain ⟨token, htoken, h⟩ := except_bind_eq_ok_iff.mp h
  cases h
  exact ⟨token, htoken, rfl⟩

theorem exists_of_cParameter_callback (h : cParameter types (.callback name type args) = .ok text) :
    ∃ token texts, types.nameOf type .c = .ok token ∧ cParameters types args = .ok texts ∧
      text = declaration token ("(*" ++ name ++ ")") texts := by
  rw [cParameter] at h
  obtain ⟨token, htoken, h⟩ := except_bind_eq_ok_iff.mp h
  obtain ⟨texts, htexts, h⟩ := except_bind_eq_ok_iff.mp h
  cases h
  exact ⟨token, texts, htoken, htexts, rfl⟩

theorem separates_cManner (htypes : ∀ type token, types.nameOf type .c = .ok token → IsEntry token) :
    (cManner types).Separates where
  scalar {owner name type text} hname h := by
    obtain ⟨token, htoken, rfl⟩ := exists_of_cParameter_scalar h
    exact listable_named (htypes type token htoken) hname
  callback {owner name returnType text args} _ hname h := by
    obtain ⟨token, texts, htoken, htexts, rfl⟩ := exists_of_cParameter_callback h
    have hpointer := isEntry_pointer hname
    refine ⟨texts, forall₂_cParameters htexts, fun hentries => ⟨⟨token, join ", " texts, htoken, ?_,
      entries_join hentries⟩, listable_declaration (htypes returnType token htoken) hpointer hentries⟩⟩
    rw [← String.toList_inj]
    simp [declaration, String.toList_append]

theorem listable_ctype (htypes : ∀ type token, types.nameOf type .python = .ok token → Listable token)
    (h : ctype types type = .ok token) : Listable token := by
  unfold ctype at h
  split at h
  · cases h
    constructor <;> decide
  · exact htypes type token h

theorem ctypesArguments_eq_mapM : ctypesArguments types args = args.mapM (ctypesArgument types) := by
  induction args with
  | nil => rfl
  | cons arg rest ih => rw [ctypesArguments, List.mapM_cons, ih]

theorem forall₂_ctypesArguments (h : ctypesArguments types args = .ok texts) :
    List.Forall₂ (fun arg text => ctypesArgument types arg = .ok text) args texts := by
  rw [ctypesArguments_eq_mapM] at h
  exact (forall₂_of_mapM h).flip

theorem separates_ctypesManner (htypes : ∀ type token, types.nameOf type .python = .ok token → Listable token) :
    (ctypesManner types).Separates where
  scalar {owner name type text} _ h := by
    change ctypesArgument types (.scalar name type) = .ok text at h
    rw [ctypesArgument] at h
    exact listable_ctype htypes h
  callback {owner name returnType text args} _ _ h := by
    change ctypesArgument types (.callback name returnType args) = .ok text at h
    rw [ctypesArgument] at h
    obtain ⟨token, htoken, h⟩ := except_bind_eq_ok_iff.mp h
    obtain ⟨texts, htexts, h⟩ := except_bind_eq_ok_iff.mp h
    cases h
    refine ⟨texts, forall₂_ctypesArguments htexts, fun hentries => ?_⟩
    have hall : ∀ text ∈ token :: texts, Listable text :=
      List.forall_mem_cons.mpr ⟨listable_ctype htypes htoken, hentries⟩
    have hprototype : prototype token texts = "CFUNCTYPE" ++ ("(" ++ join ", " (token :: texts) ++ ")") := by
      rw [← String.toList_inj]
      simp [prototype, String.toList_append]
    refine ⟨⟨token, join ", " (token :: texts), htoken, rfl, entries_join hall⟩, ?_, ?_⟩
    · rw [hprototype]
      exact IsEntry.append (by decide) (isEntry_parameters hall)
    · simp [hprototype, String.append_eq_empty_iff]

theorem isEntry_csharpArgument (htypes : ∀ type token, types.nameOf type .csharp = .ok token → IsEntry token)
    (h : csharpArgument types owner name type = .ok token) : IsEntry token := by
  unfold csharpArgument at h
  split at h
  · cases h
    decide
  · split at h
    · cases h
      decide
    · split at h
      · cases h
        decide
      · exact htypes type token h

/-- The arguments of a signature hoist what their callbacks declare. -/
theorem forall₂_csharpParameters {hoisted : List String} (h : csharpParameters types owner args = .ok (hoisted, texts))
    (hlines : hoisted <:+: lines) : List.Forall₂ (fun arg text => ∃ own,
      csharpParameter types owner arg = .ok (own, text) ∧ own <:+: lines) args texts := by
  induction args generalizing hoisted texts with
  | nil =>
      cases h
      exact .nil
  | cons arg rest ih =>
      rw [csharpParameters] at h
      obtain ⟨⟨own, text⟩, htext, h⟩ := except_bind_eq_ok_iff.mp h
      obtain ⟨⟨others, parameters⟩, hothers, h⟩ := except_bind_eq_ok_iff.mp h
      cases h
      have hown : own <:+: lines := (List.prefix_append own others).isInfix.trans hlines
      have hrest : others <:+: lines := (List.suffix_append own others).isInfix.trans hlines
      exact .cons ⟨own, htext, hown⟩ (ih hothers hrest)

theorem separates_csharpManner (htypes : ∀ type token, types.nameOf type .csharp = .ok token → IsEntry token)
    (lines : List String) :
    (csharpManner types lines).Separates where
  scalar {owner name type text} hname h := by
    obtain ⟨own, h, -⟩ := h
    rw [csharpParameter] at h
    obtain ⟨token, htoken, h⟩ := except_bind_eq_ok_iff.mp h
    cases h
    exact listable_named (isEntry_csharpArgument htypes htoken) hname
  callback {owner name returnType text args} howner hname h := by
    obtain ⟨own, h, hlines⟩ := h
    rw [csharpParameter] at h
    obtain ⟨⟨hoisted, texts⟩, htexts, h⟩ := except_bind_eq_ok_iff.mp h
    obtain ⟨token, htoken, h⟩ := except_bind_eq_ok_iff.mp h
    cases h
    have hhoisted : hoisted <:+: lines := (List.prefix_append hoisted _).isInfix.trans hlines
    have hdelegate : delegateLines (callbackName owner name) token texts <:+: lines :=
      (List.suffix_append hoisted _).isInfix.trans hlines
    have hown := nominal_delegateName (nominal_callbackName howner hname)
    exact ⟨texts, forall₂_csharpParameters htexts hhoisted, fun hentries =>
      ⟨⟨rfl, token, join ", " texts, htoken, hdelegate, entries_join hentries⟩,
        listable_named (isEntry_of_nominal hown) hname⟩⟩

end Renderers

end Signature

open Signature

/-- What is rendered for a function in C, in Python and in C# has the same parameters, one for each argument. -/
structure Function.ParametersAgree (types : TypeMap) (function : Function) (declarator text : String)
    (argtypes lines : List String) : Prop where
  c : ∃ token parameters, types.nameOf function.returnType .c = .ok token ∧
    text = token ++ " " ++ declarator ++ "(" ++ parameters ++ ")" ∧
    List.Forall₂ (Written (cManner types) function.name) function.args (entries parameters)
  ctypes : List.Forall₂ (Written (ctypesManner types) function.name) function.args (entries (join ", " argtypes))
  csharp : ∃ token parameters, csharpReturn types function.returnType = .ok token ∧
    delegate function.name token parameters <:+ lines ∧
    List.Forall₂ (Written (csharpManner types lines) function.name) function.args (entries parameters)
  call : entries function.passedArguments = function.args.map Argument.name

/-- The signatures of a function agree. Its names are identifiers, as those of any function of a description
that is loaded. -/
theorem Function.parametersAgree {types : TypeMap} {function : Function} {declarator text : String}
    {argtypes lines : List String}
    (htypes : ∀ entry ∈ types, ∀ token ∈ entry.2.texts, token ≠ "" ∧ ',' ∉ token.toList ∧ Balanced token)
    (hnamed : function.Named) (hnames : ∀ arg ∈ function.args, arg.name ≠ "")
    (hc : Signature.c types function declarator = .ok text)
    (hctypes : ctypesArguments types function.args = .ok argtypes)
    (hcsharp : delegates types function = .ok lines) :
    function.ParametersAgree types declarator text argtypes lines := by
  have hlistable : ∀ language type token, types.nameOf type language = .ok token → Listable token := by
    intro language type token htoken
    obtain ⟨entry, hentry, hmem⟩ := TypeMap.exists_mem_texts_of_nameOf htoken
    obtain ⟨hne, hcomma, hbalanced⟩ := htypes entry hentry token hmem
    exact ⟨hbalanced.isEntry hcomma, hne⟩
  have hentry (language : Language) (type token : String) (h : types.nameOf type language = .ok token) :=
    (hlistable language type token h).entry
  constructor
  · obtain ⟨token, htoken, hc⟩ := except_bind_eq_ok_iff.mp hc
    obtain ⟨texts, htexts, hc⟩ := except_bind_eq_ok_iff.mp hc
    cases hc
    obtain ⟨hwritten, hall⟩ := (separates_cManner (hentry .c)).forall₂ hnamed.args hnamed.name
      (forall₂_cParameters htexts)
    refine ⟨token, join ", " texts, htoken, rfl, ?_⟩
    rwa [entries_join hall]
  · obtain ⟨hwritten, hall⟩ := (separates_ctypesManner (hlistable .python)).forall₂ hnamed.args hnamed.name
      (forall₂_ctypesArguments hctypes)
    rwa [entries_join hall]
  · obtain ⟨⟨hoisted, texts⟩, htexts, hcsharp⟩ := except_bind_eq_ok_iff.mp hcsharp
    obtain ⟨token, htoken, hcsharp⟩ := except_bind_eq_ok_iff.mp hcsharp
    cases hcsharp
    have hhoisted := (List.prefix_append hoisted (delegateLines function.name token texts)).isInfix
    have hmanner := separates_csharpManner (hentry .csharp) (hoisted ++ delegateLines function.name token texts)
    obtain ⟨hwritten, hall⟩ := hmanner.forall₂ hnamed.args hnamed.name (forall₂_csharpParameters htexts hhoisted)
    refine ⟨token, join ", " texts, htoken, List.suffix_append _ _, ?_⟩
    rwa [entries_join hall]
  · apply entries_join
    intro name hname
    obtain ⟨arg, harg, rfl⟩ := List.mem_map.mp hname
    exact ⟨isEntry_of_nominal (hnamed.args arg harg).name, hnames arg harg⟩

/-- A table in which a type is a pointer to a function by itself. -/
def pointerTypes : TypeMap :=
  [("int", ⟨some "int", some "int", some "int", some "c_int"⟩),
    ("void", ⟨some "void", some "void", some "void", none⟩),
    ("hook", ⟨some "void (*)()", some "Hook", some "IntPtr", some "CFUNCTYPE(None)"⟩)]

/-- A function with a callback that has a callback without arguments. -/
def postFunction : Function where
  name := "YOGI_Post"
  returnType := "int"
  args := [.callback "fn" "void" [.callback "done" "int" [], .scalar "res" "int"], .scalar "hook" "hook"]

theorem Function.parametersAgree_postFunction :
    postFunction.ParametersAgree pointerTypes "YOGI_Post"
      "int YOGI_Post(void (*fn)(int (*done)(), int res), void (*)() hook)"
      ["CFUNCTYPE(None, CFUNCTYPE(c_int), c_int)", "CFUNCTYPE(None)"]
      (delegate "PostFnDone" "int" "" ++ delegate "PostFn" "void" "PostFnDoneDelegate done, int res"
        ++ delegate "YOGI_Post" "int" "PostFnDelegate fn, IntPtr hook") := by
  have hnamed : postFunction.Named := by
    refine ⟨by decide, ?_⟩
    simp only [postFunction, List.forall_mem_cons, List.not_mem_nil, false_imp_iff, implies_true, and_true]
    refine ⟨.callback (by decide) ?_, .scalar (by decide)⟩
    simp only [List.forall_mem_cons, List.not_mem_nil, false_imp_iff, implies_true, and_true]
    exact ⟨.callback (by decide) (by simp), .scalar (by decide)⟩
  refine Function.parametersAgree ?_ hnamed ?_ ?_ ?_ ?_
  · decide +kernel
  · decide
  · rfl
  · rfl
  · rfl

end Bindery
