import Bindery.Proofs.Lookups

/-!
# Missing names of types

The check of an interface goes through its languages; in each it looks up the canonical types of the functions
and then those of the constants, in the order of the document. It is a run over the list of these lookups: it
passes if none of them is missing, with their number, and otherwise names the first one that is.
-/

namespace Bindery

/-- What is looked up: a canonical type, or the type of a constant, in a language. -/
inductive Lookup where
  | ofType (type : String) (language : Language)
  | ofConstant (constant : Constant) (language : Language)

namespace Lookup

variable {types : TypeMap} {lookup : Lookup} {error : EmitError}

/-- The name that the description has for what is looked up, if it has one. -/
def name? (types : TypeMap) : Lookup → Option String
  | .ofType type language => (types.lookup type).bind (·.get? language)
  | .ofConstant constant language => constant.types.get? language

/-- The error that names what is looked up. -/
def missing : Lookup → EmitError
  | .ofType type language => .unmapped type language
  | .ofConstant constant language => .unmapped ("constant " ++ constant.name) language

def find (types : TypeMap) : Lookup → Except EmitError String
  | .ofType type language => types.nameOf type language
  | .ofConstant constant language => constant.typeIn language

theorem find_eq (types : TypeMap) (lookup : Lookup) :
    lookup.find types = (lookup.name? types).elim (.error lookup.missing) .ok := by
  cases lookup with
  | ofType type language =>
      simp only [find, name?, TypeMap.nameOf]
      cases (types.lookup type).bind (·.get? language) <;> rfl
  | ofConstant constant language =>
      simp only [find, name?, Constant.typeIn]
      cases constant.types.get? language <;> rfl

theorem succeeds_find_iff : Succeeds (lookup.find types) ↔ ∃ name, lookup.name? types = some name := by
  rw [find_eq]
  cases lookup.name? types <;> simp [Succeeds]

theorem find_eq_error_iff :
    lookup.find types = .error error ↔ lookup.name? types = none ∧ error = lookup.missing := by
  rw [find_eq]
  cases lookup.name? types <;> simp [eq_comm]

end Lookup

namespace Interface

variable {interface : Interface} {languages : List Language} {error : EmitError}

/-- The lookups in a language: the types of the functions, each as often as it is used, and then those of the
constants. -/
def lookupsIn (interface : Interface) (language : Language) : List Lookup :=
  (interface.functions.flatMap Function.canonicalTypes).map (.ofType · language)
    ++ interface.constants.map (.ofConstant · language)

/-- The lookups in several languages, one language after the other. -/
def lookups (interface : Interface) (languages : List Language) : List Lookup :=
  languages.flatMap interface.lookupsIn

/-- Makes lookups one after the other, up to the first that is missing. -/
def findAll (interface : Interface) (lookups : List Lookup) : Except EmitError Unit :=
  lookups.forM fun lookup => discard (lookup.find interface.types)

theorem findAll_append (interface : Interface) (first second : List Lookup) :
    interface.findAll (first ++ second) = interface.findAll first >>= fun _ => interface.findAll second :=
  List.forM_append

theorem length_lookups (interface : Interface) (languages : List Language) :
    (interface.lookups languages).length = languages.length
      * ((interface.functions.flatMap Function.canonicalTypes).length + interface.constants.length) := by
  induction languages with
  | nil => simp [lookups]
  | cons language rest ih =>
      have hown : (interface.lookupsIn language).length
          = (interface.functions.flatMap Function.canonicalTypes).length + interface.constants.length := by
        rw [lookupsIn, List.length_append, List.length_map, List.length_map]
      rw [lookups, List.flatMap_cons, List.length_append, ← lookups, ih, hown, List.length_cons,
        Nat.succ_mul, Nat.add_comm]

theorem countTypes_eq (interface : Interface) (language : Language) :
    interface.countTypes language = (do
      interface.findAll (interface.lookupsIn language)
      return (interface.lookupsIn language).length) := by
  have htypes : ∀ types : List String,
      (types.map (Lookup.ofType · language)).forM (fun lookup => discard (lookup.find interface.types))
        = types.forM fun type => discard (interface.types.nameOf type language) := fun types => List.forM_map
  have hconstants : (interface.constants.map (Lookup.ofConstant · language)).forM
        (fun lookup => discard (lookup.find interface.types))
      = interface.constants.forM fun constant => discard (constant.typeIn language) := List.forM_map
  rw [countTypes, Function.foldl_gatherTypes, List.nil_append, lookupsIn, findAll_append, findAll, findAll,
    htypes, hconstants, List.length_append, List.length_map, List.length_map, bind_assoc]

/-- The check makes the lookups of all languages and yields their number. -/
theorem checkTypes_eq (interface : Interface) (languages : List Language) :
    interface.checkTypes languages = (do
      interface.findAll (interface.lookups languages)
      return (interface.lookups languages).length) := by
  induction languages with
  | nil => rfl
  | cons language rest ih =>
      have hlookups : interface.lookups (language :: rest)
          = interface.lookupsIn language ++ interface.lookups rest := rfl
      rw [checkTypes, countTypes_eq, ih, hlookups, findAll_append, List.length_append]
      simp only [bind_assoc, pure_bind]

theorem succeeds_checkTypes_iff :
    Succeeds (interface.checkTypes languages) ↔
      ∀ lookup ∈ interface.lookups languages, ∃ name, lookup.name? interface.types = some name := by
  rw [checkTypes_eq]
  constructor
  · rintro ⟨count, h⟩ lookup hlookup
    obtain ⟨⟨⟩, hall, -⟩ := except_bind_eq_ok_iff.mp h
    exact Lookup.succeeds_find_iff.mp (succeeds_discard.mp (succeeds_of_forM ⟨(), hall⟩ lookup hlookup))
  · intro h
    have hall : Succeeds (interface.findAll (interface.lookups languages)) :=
      succeeds_forM fun lookup hlookup => succeeds_discard.mpr (Lookup.succeeds_find_iff.mpr (h lookup hlookup))
    exact succeeds_bind hall fun _ => succeeds_ok _

theorem forall_mem_lookups {P : Lookup → Prop} :
    (∀ lookup ∈ interface.lookups languages, P lookup) ↔
      ∀ language ∈ languages,
        (∀ function ∈ interface.functions, ∀ type ∈ function.canonicalTypes, P (.ofType type language)) ∧
        ∀ constant ∈ interface.constants, P (.ofConstant constant language) := by
  simp only [lookups, lookupsIn, List.forall_mem_flatMap, List.forall_mem_append, List.forall_mem_map]

theorem checkTypes_eq_error_iff :
    interface.checkTypes languages = .error error ↔
      ∃ before lookup after, interface.lookups languages = before ++ lookup :: after ∧
        (∀ earlier ∈ before, ∃ name, earlier.name? interface.types = some name) ∧
        lookup.name? interface.types = none ∧ error = lookup.missing := by
  have hfails : interface.checkTypes languages = .error error ↔
      interface.findAll (interface.lookups languages) = .error error := by
    rw [checkTypes_eq, except_bind_eq_error_iff]
    exact or_iff_left fun ⟨_, _, h⟩ => by cases h
  rw [hfails, findAll, forM_eq_error_iff]
  simp only [succeeds_discard, Lookup.succeeds_find_iff, discard_eq_error_iff, Lookup.find_eq_error_iff]

/-- The check looks up the canonical types of each function, as they are nested in its callbacks. It passes
exactly if every type has a name in every language, and then yields the number of lookups; its error names the
first lookup without a name, where the languages come one after the other, in each the functions before the
constants, and all in the order of the document. -/
theorem checkTypes_outcome (interface : Interface) (languages : List Language) :
    (∀ function ∈ interface.functions, ∀ gathered,
      function.gatherTypes gathered = gathered ++ function.canonicalTypes) ∧
    (Succeeds (interface.checkTypes languages) ↔ ∀ language ∈ languages,
      (∀ function ∈ interface.functions, ∀ type ∈ function.canonicalTypes,
        ∃ name, (interface.types.lookup type).bind (·.get? language) = some name) ∧
      ∀ constant ∈ interface.constants, ∃ name, constant.types.get? language = some name) ∧
    (∀ count, interface.checkTypes languages = .ok count → count = languages.length
      * ((interface.functions.flatMap Function.canonicalTypes).length + interface.constants.length)) ∧
    ∀ error, interface.checkTypes languages = .error error ↔
      ∃ before lookup after, interface.lookups languages = before ++ lookup :: after ∧
        (∀ earlier ∈ before, ∃ name, earlier.name? interface.types = some name) ∧
        lookup.name? interface.types = none ∧ error = lookup.missing := by
  refine ⟨fun function _ gathered => function.gatherTypes_eq gathered,
    succeeds_checkTypes_iff.trans forall_mem_lookups, fun count h => ?_, fun error => checkTypes_eq_error_iff⟩
  rw [checkTypes_eq] at h
  obtain ⟨⟨⟩, -, hcount⟩ := except_bind_eq_ok_iff.mp h
  cases hcount
  exact length_lookups interface languages

end Interface

end Bindery
