import Bindery.Proofs.Hoisting
import Bindery.Proofs.Numbering
import Mathlib.Data.List.DropRight

/-!
# Names of delegate types

A delegate type is named after the names on the way to its signature, glued together without the prefix
of the API. Nothing checks that two signatures have different names. An argument that starts with a letter
is glued on as one word, an uppercase letter and others that are not. So the last word of a name can be
taken off again, and names meet in no more ways than those listed here.
-/

namespace Bindery

open Text Naming Signature

/-- The name of a signature without the prefix of the API. -/
def Trail.spelling (function : String) (trail : Trail) : String := bareName (trail.owner function)

/-- Whether the last step of a trail is glued on otherwise than as a word of its own: it starts with an
underscore, or what results starts with the prefix of the API, which is taken off again. -/
def Trail.Unusual (function : String) (trail : Trail) (step : Nat × String) : Prop :=
  step.2.toList.head? = some '_' ∨
    apiPrefix.toList <+: (trail.spelling function ++ capitalize step.2).toList

/-- The signatures of all functions, each with its function and the trail to it. -/
def Interface.signatures (interface : Interface) : List (Function × Trail) :=
  interface.functions.flatMap fun function => function.trails.map (function, ·)

/-- No two signatures have one spelling. Where every step is a word of its own, it is enough that the
functions differ in more than the prefix of the API, the callbacks of one signature in more than case,
and that no callback is spelled like a function. -/
structure Interface.Apart (interface : Interface) : Prop where
  functions : ∀ first ∈ interface.functions, ∀ second ∈ interface.functions,
    bareName first.name = bareName second.name → first = second
  callbacks : ∀ function ∈ interface.functions, ∀ trail ∈ function.trails, trail ≠ [] →
    ∀ other ∈ interface.functions, trail.spelling function.name ≠ bareName other.name
  siblings : ∀ function ∈ interface.functions, ∀ trail step other,
    trail ++ [step] ∈ function.trails → trail ++ [other] ∈ function.trails →
      capitalize step.2 = capitalize other.2 → step = other
  unusual : ∀ function ∈ interface.functions, ∀ (trail : Trail) (step : Nat × String),
    trail ++ [step] ∈ function.trails → trail.Unusual function.name step →
      ∀ other ∈ interface.functions, ∀ place ∈ other.trails,
        Trail.spelling function.name (trail ++ [step]) = place.spelling other.name →
          function = other ∧ trail ++ [step] = place

/-! ## Words -/

section Words

variable {name : String} {first second front back rest behind : List Char} {initial other c : Char}

theorem exists_upper_of_isAlpha (h : isNominal c = true) (halpha : c.isAlpha = true) :
    ∃ d, upper c = [d] ∧ d.isUpper = true := by
  have hsome : (upper c).any (fun d => decide (upper c = [d]) && d.isUpper) = true :=
    of_isNominal (P := fun c => c.isAlpha = true →
      (upper c).any (fun d => decide (upper c = [d]) && d.isUpper) = true) (by decide) h halpha
  obtain ⟨d, -, hd⟩ := List.any_eq_true.mp hsome
  rw [Bool.and_eq_true, decide_eq_true_iff] at hd
  exact ⟨d, hd⟩

theorem isUpper_of_mem_lower (h : isNominal c = true) : ∀ d ∈ lower c, d.isUpper = false := by
  have hall : (lower c).all (fun d => !d.isUpper) = true :=
    of_isNominal (P := fun c => (lower c).all (fun d => !d.isUpper) = true) (by decide) h
  simpa using hall

/-- A name that starts with a letter is capitalized to one uppercase letter and others that are not. -/
theorem exists_capitalize (h : Identifier.IsValid name) (hletter : name.toList.head? ≠ some '_') :
    ∃ initial rest, (capitalize name).toList = initial :: rest ∧ initial.isUpper = true ∧
      ∀ c ∈ rest, c.isUpper = false := by
  have hnominal := nominal_of_isValid h
  obtain ⟨hspelled, -⟩ := h
  unfold Nominal at hnominal
  cases hname : name.toList with
  | nil => simp [hname, Identifier.isSpelled] at hspelled
  | cons c rest =>
      rw [hname] at hnominal hspelled hletter
      obtain ⟨hc, hrest⟩ := List.forall_mem_cons.mp hnominal
      simp only [Identifier.isSpelled, Identifier.isStart, Bool.and_eq_true, Bool.or_eq_true,
        decide_eq_true_eq] at hspelled
      have halpha : c.isAlpha = true := hspelled.1.resolve_right (by simpa using hletter)
      obtain ⟨initial, hinitial, hupper⟩ := exists_upper_of_isAlpha hc halpha
      refine ⟨initial, rest.flatMap lower, ?_, hupper, ?_⟩
      · simp [capitalize, hname, capitalizeWord, hinitial]
      intro d hd
      obtain ⟨e, he, hmem⟩ := List.mem_flatMap.mp hd
      exact isUpper_of_mem_lower (hrest e he) d hmem

/-- The last word of a text starts at its last uppercase letter. -/
theorem append_word_inj (hinitial : initial.isUpper = true) (hrest : ∀ c ∈ rest, c.isUpper = false)
    (hother : other.isUpper = true) (hbehind : ∀ c ∈ behind, c.isUpper = false)
    (h : front ++ initial :: rest = back ++ other :: behind) :
    front = back ∧ initial :: rest = other :: behind := by
  have hcut {text word : List Char} {c : Char} (hc : c.isUpper = true)
      (hword : ∀ d ∈ word, d.isUpper = false) :
      (text ++ c :: word).rtakeWhile (!·.isUpper) = word := by
    have hall : ∀ d ∈ word.reverse, (!d.isUpper) = true := by simpa using hword
    rw [List.rtakeWhile, List.reverse_append, List.reverse_cons, List.append_assoc,
      List.takeWhile_append_of_pos hall]
    simp [hc]
  have hsame := congrArg (List.rtakeWhile (!·.isUpper)) h
  rw [hcut hinitial hrest, hcut hother hbehind] at hsame
  subst hsame
  obtain ⟨rfl, hword⟩ := List.append_inj' h rfl
  exact ⟨rfl, hword⟩

end Words

/-! ## Spellings -/

namespace Trail

variable {function : String} {trail : Trail} {step : Nat × String}

theorem spelling_concat : Trail.spelling function (trail ++ [step])
    = bareName (trail.spelling function ++ capitalize step.2) := by
  rw [spelling, owner, List.foldl_append]
  rfl

theorem spelling_concat_of_not_unusual (h : ¬ trail.Unusual function step) :
    Trail.spelling function (trail ++ [step]) = trail.spelling function ++ capitalize step.2 := by
  rw [Unusual, not_or] at h
  rw [spelling_concat, bareName, if_neg]
  rw [List.isPrefixOf_iff_prefix]
  exact h.2

end Trail

namespace Function

variable {function signature source : Function} {trail front : Trail} {step : Nat × String}

theorem signatureAt?_append : function.signatureAt? (front ++ trail)
    = (function.signatureAt? front).bind (signatureAt? · trail) := by
  induction front generalizing function with
  | nil => rfl
  | cons step rest ih =>
      ext signature
      simp only [List.cons_append, Option.bind_eq_some_iff, signatureAt?_cons, ih]
      constructor
      · rintro ⟨returnType, args, harg, inner, hinner, hsignature⟩
        exact ⟨inner, ⟨returnType, args, harg, hinner⟩, hsignature⟩
      · rintro ⟨inner, ⟨returnType, args, harg, hinner⟩, hsignature⟩
        exact ⟨returnType, args, harg, inner, hinner, hsignature⟩

theorem mem_trails_of_concat (h : trail ++ [step] ∈ function.trails) : trail ∈ function.trails := by
  obtain ⟨signature, hsignature⟩ := mem_trails_iff.mp h
  rw [signatureAt?_append] at hsignature
  obtain ⟨inner, hinner, -⟩ := Option.bind_eq_some_iff.mp hsignature
  exact mem_trails_iff.mpr ⟨inner, hinner⟩

/-- Apart from its name, a signature at the end of a trail is one of those within the function. -/
theorem exists_nests_of_signatureAt? (h : function.signatureAt? trail = some signature)
    (hsource : source.args = function.args) :
    ∃ inner, source.Nests inner ∧ inner.args = signature.args := by
  induction trail generalizing function source with
  | nil =>
      cases h
      exact ⟨source, .self source, hsource⟩
  | cons step rest ih =>
      obtain ⟨returnType, args, harg, hrest⟩ := signatureAt?_cons.mp h
      obtain ⟨inner, hinner, hargs⟩ := @ih _ ⟨step.2, returnType, args⟩ hrest rfl
      have hmem : Argument.callback step.2 returnType args ∈ source.args :=
        hsource ▸ List.mem_of_getElem? harg
      exact ⟨inner, .callback hmem rfl hinner, hargs⟩

theorem isValid_of_concat_mem_trails (hsound : ∀ inner, function.Nests inner → inner.Sound)
    (h : trail ++ [step] ∈ function.trails) : Identifier.IsValid step.2 := by
  obtain ⟨signature, hsignature⟩ := mem_trails_iff.mp h
  rw [signatureAt?_append] at hsignature
  obtain ⟨parent, hparent, hlast⟩ := Option.bind_eq_some_iff.mp hsignature
  obtain ⟨returnType, args, harg, -⟩ := signatureAt?_cons.mp hlast
  obtain ⟨inner, hinner, hargs⟩ := exists_nests_of_signatureAt? hparent rfl
  exact (hsound inner hinner).arg_names_valid _ (hargs ▸ List.mem_of_getElem? harg)

end Function

namespace Interface

variable {interface : Interface} {first second : Function} {trail place : Trail}

/-- Signatures with one spelling are the same: their last words are, and so are the spellings without. -/
theorem Apart.inj (h : interface.Apart) (hsound : interface.Sound)
    (hfirst : first ∈ interface.functions) (hsecond : second ∈ interface.functions)
    (htrail : trail ∈ first.trails) (hplace : place ∈ second.trails)
    (heq : trail.spelling first.name = place.spelling second.name) :
    first = second ∧ trail = place := by
  induction trail using List.reverseRecOn generalizing place with
  | nil =>
      cases place using List.reverseRecOn with
      | nil => exact ⟨h.functions first hfirst second hsecond heq, rfl⟩
      | append_singleton place other =>
          exact absurd heq.symm (h.callbacks second hsecond _ hplace (by simp) first hfirst)
  | append_singleton trail step ih =>
      cases place using List.reverseRecOn with
      | nil => exact absurd heq (h.callbacks first hfirst _ htrail (by simp) second hsecond)
      | append_singleton place other =>
          by_cases hstep : Trail.Unusual first.name trail step
          · exact h.unusual first hfirst trail step htrail hstep second hsecond _ hplace heq
          by_cases hother : Trail.Unusual second.name place other
          · obtain ⟨rfl, hsame⟩ :=
              h.unusual second hsecond place other hplace hother first hfirst _ htrail heq.symm
            exact ⟨rfl, hsame.symm⟩
          have hvalid := Function.isValid_of_concat_mem_trails (hsound.functions first hfirst) htrail
          have hvalid' := Function.isValid_of_concat_mem_trails (hsound.functions second hsecond) hplace
          rw [Trail.spelling_concat_of_not_unusual hstep,
            Trail.spelling_concat_of_not_unusual hother] at heq
          obtain ⟨initial, rest, hcapital, hinitial, hrest⟩ :=
            exists_capitalize hvalid fun hunderscore => hstep (.inl hunderscore)
          obtain ⟨initial', rest', hcapital', hinitial', hrest'⟩ :=
            exists_capitalize hvalid' fun hunderscore => hother (.inl hunderscore)
          have hchars := congrArg String.toList heq
          rw [String.toList_append, String.toList_append, hcapital, hcapital'] at hchars
          obtain ⟨hfront, hword⟩ := append_word_inj hinitial hrest hinitial' hrest' hchars
          obtain ⟨rfl, rfl⟩ := ih (Function.mem_trails_of_concat htrail)
            (Function.mem_trails_of_concat hplace) (String.toList_inj.mp hfront)
          rw [← hcapital, ← hcapital', String.toList_inj] at hword
          exact ⟨rfl, by rw [h.siblings first hfirst trail step other htrail hplace hword]⟩

theorem nodup_signatures (hsound : interface.Sound) : interface.signatures.Nodup := by
  refine List.nodup_flatMap.mpr ⟨fun function _ => ?_, ?_⟩
  · exact (Function.nodup_trails function).map (Prod.mk_right_injective function)
  · refine (List.Nodup.of_map _ hsound.function_names_nodup).imp fun hne => ?_
    simp only [Function.onFun, List.disjoint_left, List.mem_map]
    rintro _ ⟨trail, -, rfl⟩ ⟨place, -, heq⟩
    exact hne (Prod.mk.inj heq).1.symm

theorem mem_signatures_iff : (first, trail) ∈ interface.signatures ↔
    first ∈ interface.functions ∧ trail ∈ first.trails := by
  simp [signatures]

/-- The signatures are apart exactly when their spellings are pairwise distinct. -/
theorem nodup_spellings_iff (hsound : interface.Sound) :
    (interface.signatures.map fun entry => Trail.spelling entry.1.name entry.2).Nodup
      ↔ interface.Apart := by
  rw [List.nodup_map_iff_inj_on (nodup_signatures hsound)]
  constructor
  · intro hinj
    have hsame {first second : Function} {trail place : Trail} (hfirst : first ∈ interface.functions)
        (hsecond : second ∈ interface.functions) (htrail : trail ∈ first.trails)
        (hplace : place ∈ second.trails)
        (heq : trail.spelling first.name = place.spelling second.name) : first = second ∧ trail = place :=
      Prod.mk.inj (hinj (first, trail) (mem_signatures_iff.mpr ⟨hfirst, htrail⟩) (second, place)
        (mem_signatures_iff.mpr ⟨hsecond, hplace⟩) heq)
    have hself (function : Function) : ([] : Trail) ∈ function.trails := by simp [Function.trails]
    exact
      { functions := fun first hfirst second hsecond heq =>
          (hsame hfirst hsecond (hself first) (hself second) heq).1
        callbacks := fun function hfunction trail htrail hne other hother heq =>
          hne (hsame hfunction hother htrail (hself other) heq).2
        siblings := by
          intro function hfunction trail step other hstep hother heq
          have hspelling : Trail.spelling function.name (trail ++ [step])
              = Trail.spelling function.name (trail ++ [other]) := by
            rw [Trail.spelling_concat, Trail.spelling_concat, heq]
          simpa using (hsame hfunction hfunction hstep hother hspelling).2
        unusual := fun function hfunction trail step hstep _ other hother place hplace heq =>
          hsame hfunction hother hstep hplace heq }
  · rintro h ⟨first, trail⟩ hfirst ⟨second, place⟩ hsecond heq
    obtain ⟨hfirst, htrail⟩ := mem_signatures_iff.mp hfirst
    obtain ⟨hsecond, hplace⟩ := mem_signatures_iff.mp hsecond
    obtain ⟨rfl, rfl⟩ := h.inj hsound hfirst hsecond htrail hplace heq
    rfl

end Interface

/-! ## Declared names -/

namespace Function

variable {types : TypeMap} {function : Function} {declared : List Delegate} {lines : List String}

/-- The lines that declare and load a function in C#, given the declarations of its delegate types. -/
def loaderLines (function : Function) (declared : List Delegate) : List String :=
  ["", "        // " ++ function.name] ++ declared.flatMap Delegate.lines
    ++ [ "        public static " ++ delegateName function.name ++ " " ++ function.name,
      "            = Library.GetDelegateForFunction<" ++ delegateName function.name ++ ">(\""
        ++ function.name ++ "\");" ]

theorem exists_of_csharpLoader (h : function.csharpLoader types = .ok lines) :
    ∃ declared, function.Hoists types declared ∧ lines = function.loaderLines declared := by
  obtain ⟨delegates, hdelegates, h⟩ := except_bind_eq_ok_iff.mp h
  cases h
  obtain ⟨declared, rfl, htrails, horder⟩ := exists_of_delegates hdelegates
  exact ⟨declared, .of_inOrder htrails horder, rfl⟩

theorem exists_of_loaders {functions : List Function} {loaders : List (List String)}
    (h : List.Forall₂ (fun function lines => csharpLoader types function = .ok lines) functions
      loaders) :
    ∃ declared : List (Function × List Delegate), declared.map Prod.fst = functions ∧
      (∀ group ∈ declared, group.1.Hoists types group.2) ∧
      loaders.flatten = declared.flatMap fun group => group.1.loaderLines group.2 := by
  induction h with
  | nil => exact ⟨[], rfl, by simp, rfl⟩
  | @cons function _ _ _ hlines _ ih =>
      obtain ⟨own, hhoists, rfl⟩ := exists_of_csharpLoader hlines
      obtain ⟨others, rfl, hothers, hflatten⟩ := ih
      exact ⟨(function, own) :: others, rfl, List.forall_mem_cons.mpr ⟨hhoists, hothers⟩,
        by rw [List.flatten_cons, List.flatMap_cons, hflatten]⟩

/-- Each delegate type has the name of its signature. -/
theorem Hoists.map_name (h : function.Hoists types declared) :
    declared.map Delegate.name
      = function.trails.map fun trail => trail.spelling function.name ++ "Delegate" := by
  rw [← h.trails, List.map_map]
  refine List.map_congr_left fun own hown => ?_
  obtain ⟨front, back, hsplit⟩ := List.append_of_mem hown
  obtain ⟨signature, hsignature, hname, -⟩ := h.renders front own back hsplit
  rw [hname, delegateName, name_of_signatureAt? hsignature]
  rfl

end Function

namespace Interface

variable {file source : String} {interface : Interface} {sources : Sources} {edits : List Edit}
  {declared : List (Function × List Delegate)} {lines : List String}

/-- The lines declare and load the functions of an interface one after the other, each with the delegate
types of its signatures. -/
structure Declares (interface : Interface) (declared : List (Function × List Delegate))
    (lines : List String) : Prop where
  functions : declared.map Prod.fst = interface.functions
  hoists : ∀ group ∈ declared, group.1.Hoists interface.types group.2
  lines : lines = (declared.flatMap fun group => group.1.loaderLines group.2) ++ [""]

/-- The names of all delegate types that are declared. -/
def delegateNames (declared : List (Function × List Delegate)) : List String :=
  declared.flatMap fun group => group.2.map Delegate.name

theorem exists_declares (hemit : Target.dotnet.emitter.emit interface sources = .ok edits) :
    ∃ declared, interface.Declares declared (linesOf edits "yogi-dotnet/yogi/Api.cs" 0) := by
  obtain ⟨loaders, hloaders, hlines⟩ := Target.dotnet_functions hemit
  obtain ⟨declared, hfunctions, hhoists, hflatten⟩ :=
    Function.exists_of_loaders (forall₂_of_mapM hloaders).flip
  exact ⟨declared, hfunctions, hhoists, by rw [hlines, hflatten]⟩

theorem Declares.delegateNames_eq (h : interface.Declares declared lines) : delegateNames declared
    = (interface.signatures.map fun entry => Trail.spelling entry.1.name entry.2).map
      (· ++ "Delegate") := by
  rw [signatures, ← h.functions, List.flatMap_map, List.map_map, List.map_flatMap]
  refine List.flatMap_congr fun group hgroup => ?_
  rw [(h.hoists group hgroup).map_name, List.map_map]
  rfl

theorem nodup_delegateNames_iff (hload : load file source = .ok interface)
    (hemit : Target.dotnet.emitter.emit interface sources = .ok edits) :
    ∃ declared, interface.Declares declared (linesOf edits "yogi-dotnet/yogi/Api.cs" 0) ∧
      ((delegateNames declared).Nodup ↔ interface.Apart) := by
  obtain ⟨declared, hdeclared⟩ := exists_declares hemit
  refine ⟨declared, hdeclared, ?_⟩
  have hinjective : Function.Injective fun spelling : String => spelling ++ "Delegate" :=
    fun first second heq => (String.append_left_inj "Delegate").mp heq
  rw [hdeclared.delegateNames_eq, List.nodup_map_iff hinjective,
    nodup_spellings_iff (load_sound hload).1]

theorem nodup_delegateNames_iff_described : ∃ (interface : Interface) (edits : Target → List Edit),
    load "core_api.toml" Sample.description = .ok interface ∧
      Target.dotnet.emitter.emit interface Sample.sources = .ok (edits .dotnet) ∧
      ∃ declared, interface.Declares declared (linesOf (edits .dotnet) "yogi-dotnet/yogi/Api.cs" 0) ∧
        ((delegateNames declared).Nodup ↔ interface.Apart) := by
  obtain ⟨interface, edits, hload, hemit, -⟩ := Sample.exists_emitted
  exact ⟨interface, edits, hload, hemit .dotnet, nodup_delegateNames_iff hload (hemit .dotnet)⟩

end Interface

namespace Sample

/-- A description of two functions, where the callback of one is spelled like the other. -/
def clashing : String :=
"copyright = \"\"

[version]
major = 1
minor = 2
patch = 3

[constants]

[functions.YOGI_Post]
return_type = \"void\"

[functions.YOGI_Post.args.fn]
return_type = \"void\"

[functions.YOGI_PostFn]
return_type = \"void\"

[enums]

[flags]

[type_mappings]
void = [\"void\", \"void\", \"void\", \"void\"]
"

set_option maxRecDepth 10000 in
theorem exists_clashing : ∃ (interface : Interface) (edits : Target → List Edit),
    Interface.load "core_api.toml" clashing = .ok interface ∧
      (∀ target : Target, target.emitter.emit interface sources = .ok (edits target)) ∧
      (interface.signatures.map fun entry => Trail.spelling entry.1.name entry.2)
        = ["PostFn", "Post", "PostFn"] :=
  exists_emitted_of_described String.toList_ofList (by decide)

end Sample

/-- The callback of one function and another function have delegate types of one name. -/
theorem Interface.delegateNames_clash : ∃ (interface : Interface) (edits : Target → List Edit)
    (declared : List (Function × List Delegate)),
    load "core_api.toml" Sample.clashing = .ok interface ∧
      Target.dotnet.emitter.emit interface Sample.sources = .ok (edits .dotnet) ∧
      interface.Declares declared (linesOf (edits .dotnet) "yogi-dotnet/yogi/Api.cs" 0) ∧
      delegateNames declared = ["PostFnDelegate", "PostDelegate", "PostFnDelegate"] ∧
      ¬ (delegateNames declared).Nodup := by
  obtain ⟨interface, edits, hload, hemit, hspellings⟩ := Sample.exists_clashing
  obtain ⟨declared, hdeclared⟩ := exists_declares (hemit .dotnet)
  have hnames : delegateNames declared = ["PostFnDelegate", "PostDelegate", "PostFnDelegate"] := by
    rw [hdeclared.delegateNames_eq, hspellings]
    rfl
  refine ⟨interface, edits, declared, hload, hemit .dotnet, hdeclared, hnames, ?_⟩
  rw [hnames]
  decide

end Bindery
