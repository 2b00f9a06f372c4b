import Bindery.Proofs.FlagLines
import Bindery.Proofs.Joining
import Bindery.Proofs.Loading
import Bindery.Proofs.MemberLines
import Bindery.Render.Schemas
import Bindery.Render.Signature

/-!
# Free texts

The texts of a description that the loader lets through whatever they hold: help texts, the texts of
constants, the names of types, those of flags that are combined, and what follows the numbers of the
version. When none of them has a marker, all parts of the description can go into generated code; all
other names are identifiers.
-/

namespace Bindery

open Block Text Naming

def TypeNames.texts (names : TypeNames) : List String := Language.all.filterMap names.get?

namespace Toml.Value

mutual

/-- The texts in a value, the keys of tables included. -/
def texts : Value → List String
  | .string text => [text]
  | .integer _ | .float _ | .boolean _ => []
  | .datetime value => [value.text]
  | .array items => itemTexts items
  | .table entries => entryTexts entries

def itemTexts : List Value → List String
  | [] => []
  | item :: rest => item.texts ++ itemTexts rest

def entryTexts : List (String × Value) → List String
  | [] => []
  | (key, value) :: rest => key :: (value.texts ++ entryTexts rest)

end

end Toml.Value

def Constant.Value.texts : Constant.Value → List String
  | .integer _ | .float _ => []
  | .line text | .lines text => [text]
  | .list items => Toml.Value.itemTexts items

def Constant.texts (constant : Constant) : List String :=
  constant.help :: (constant.value.texts ++ constant.types.texts)

def Enumeration.texts (enumeration : Enumeration) : List String := enumeration.members.map Member.help

def Flag.texts (flag : Flag) : List String := flag.help :: flag.kind.names

def FlagSet.texts (set : FlagSet) : List String := set.flags.flatMap Flag.texts

/-- The free texts of a description. -/
def Interface.texts (interface : Interface) : List String :=
  interface.version.suffix :: (interface.constants.flatMap Constant.texts
    ++ interface.enumerations.flatMap Enumeration.texts ++ interface.flagSets.flatMap FlagSet.texts
    ++ interface.types.flatMap fun entry => entry.2.texts)

/-- The free texts of a schema: the label that is made of its name, with the colon behind it, and its
content. -/
def Schema.texts (schema : Schema) : List String := [constantCase schema.name ++ ":", schema.content]

/-! What can go into generated code, part by part. -/

def Version.MarkerFree (version : Version) : Prop := Unmarked version.suffix.toList

structure Constant.MarkerFree (constant : Constant) : Prop where
  name : Nominal constant.name
  help : Unmarked constant.help.toList
  value : AllUnmarked constant.value.texts
  types : AllUnmarked constant.types.texts

structure Enumeration.MarkerFree (enumeration : Enumeration) : Prop where
  name : Nominal enumeration.name
  named : enumeration.Named
  help : ∀ member ∈ enumeration.members, Unmarked member.help.toList

structure Flag.MarkerFree (flag : Flag) : Prop where
  name : Nominal flag.name
  help : Unmarked flag.help.toList
  names : AllUnmarked flag.kind.names

structure FlagSet.MarkerFree (set : FlagSet) : Prop where
  name : Nominal set.name
  macroPrefix : Nominal set.macroPrefix
  flags : ∀ flag ∈ set.flags, flag.MarkerFree

/-- An argument whose name can go into generated code, with those of its callbacks. -/
inductive Argument.Named : Argument → Prop
  | scalar {name type : String} (hname : Nominal name) : Named (.scalar name type)
  | callback {name returnType : String} {args : List Argument} (hname : Nominal name)
      (hargs : ∀ arg ∈ args, Named arg) : Named (.callback name returnType args)

structure Function.Named (function : Function) : Prop where
  name : Nominal function.name
  args : ∀ arg ∈ function.args, arg.Named

def TypeMap.MarkerFree (types : TypeMap) : Prop := ∀ entry ∈ types, AllUnmarked entry.2.texts

structure Interface.MarkerFree (interface : Interface) : Prop where
  version : interface.version.MarkerFree
  constants : ∀ constant ∈ interface.constants, constant.MarkerFree
  functions : ∀ function ∈ interface.functions, function.Named
  enumerations : ∀ enumeration ∈ interface.enumerations, enumeration.MarkerFree
  flagSets : ∀ set ∈ interface.flagSets, set.MarkerFree
  types : interface.types.MarkerFree

theorem Argument.Named.name {arg : Argument} (h : arg.Named) : Nominal arg.name := by
  cases h with
  | scalar hname => exact hname
  | callback hname _ => exact hname

/-- The names of sound signatures are identifiers at whatever depth. -/
theorem Argument.named_of_sound : ∀ arg : Argument, Identifier.IsValid arg.name →
    (∀ callback ∈ arg.signature?, ∀ signature, callback.Nests signature → signature.Sound) → arg.Named
  | .scalar _ _, hname, _ => .scalar (nominal_of_isValid hname)
  | .callback name returnType args, hname, hsound => by
      have hcallback := hsound ⟨name, returnType, args⟩ rfl
      refine .callback (nominal_of_isValid hname) fun arg harg => ?_
      refine named_of_sound arg ((hcallback _ (.self _)).arg_names_valid arg harg) ?_
      exact fun inner hinner signature hnests =>
        hcallback signature (.callback harg hinner hnests)
termination_by arg => sizeOf arg
decreasing_by
  have hlt := List.sizeOf_lt_of_mem harg
  simp only [Argument.callback.sizeOf_spec]
  omega

theorem Function.named_of_sound {function : Function}
    (h : ∀ signature, function.Nests signature → signature.Sound) : function.Named where
  name := nominal_of_isValid (h function (.self function)).name_valid
  args arg harg := arg.named_of_sound ((h function (.self function)).arg_names_valid arg harg)
    fun _ hcallback signature hnests => h signature (.callback harg hcallback hnests)

theorem FlagSet.Sound.nominal_macroPrefix {set : FlagSet} (h : set.Sound) : Nominal set.macroPrefix := by
  unfold FlagSet.macroPrefix
  cases hgiven : set.macroPrefix? with
  | none => exact nominal_constantCase (nominal_of_isValid h.name_valid)
  | some given => exact nominal_of_isValid (h.prefix_valid given hgiven)

/-- All parts of a description that is loaded can go into generated code when no free text has a
marker. -/
theorem Interface.markerFree_of_load {file source : String} {interface : Interface}
    (hload : Interface.load file source = .ok interface) (htexts : AllUnmarked interface.texts) :
    interface.MarkerFree := by
  obtain ⟨hsound, -⟩ := Interface.load_sound hload
  obtain ⟨hversion, htexts⟩ := List.forall_mem_cons.mp htexts
  simp only [List.forall_mem_append] at htexts
  obtain ⟨⟨⟨hconstants, henumerations⟩, hflagSets⟩, htypes⟩ := htexts
  refine ⟨hversion, fun constant hmem => ?_, ?_, fun enumeration hmem => ?_, fun set hmem => ?_,
    allUnmarked_flatMap.mp htypes⟩
  · have hconstant := allUnmarked_flatMap.mp hconstants constant hmem
    obtain ⟨hhelp, hrest⟩ := List.forall_mem_cons.mp hconstant
    obtain ⟨hvalue, hnames⟩ := allUnmarked_append.mp hrest
    exact ⟨nominal_of_isValid (hsound.constants constant hmem).name_valid, hhelp, hvalue, hnames⟩
  · exact fun function hmem => Function.named_of_sound (hsound.functions function hmem)
  · have henumeration := hsound.enumerations enumeration hmem
    exact ⟨nominal_of_isValid henumeration.name_valid, henumeration.named,
      allUnmarked_map.mp (allUnmarked_flatMap.mp henumerations enumeration hmem)⟩
  · have hset := hsound.flagSets set hmem
    have hflags := allUnmarked_flatMap.mp (allUnmarked_flatMap.mp hflagSets set hmem)
    refine ⟨nominal_of_isValid hset.name_valid, hset.nominal_macroPrefix, fun flag hflag => ?_⟩
    obtain ⟨hhelp, hnames⟩ := List.forall_mem_cons.mp (hflags flag hflag)
    exact ⟨nominal_of_isValid (hset.flags flag hflag).name_valid, hhelp, hnames⟩

/-! The forms of these parts in generated code. -/

section Types

variable {types : TypeMap} {constant : Constant} {type text : String} {language : Language}

theorem mem_texts_of_get? {names : TypeNames} (h : names.get? language = some text) :
    text ∈ names.texts := by
  refine List.mem_filterMap.mpr ⟨language, ?_, h⟩
  cases language <;> decide

/-- The name of a type in a language stands in the table. -/
theorem TypeMap.exists_mem_texts_of_nameOf (h : types.nameOf type language = .ok text) :
    ∃ entry ∈ types, text ∈ entry.2.texts := by
  unfold TypeMap.nameOf at h
  split at h
  next found hfound =>
    cases h
    obtain ⟨names, hnames, hget⟩ := Option.bind_eq_some_iff.mp hfound
    exact ⟨_, mem_of_lookup hnames, mem_texts_of_get? hget⟩
  next => cases h

theorem TypeMap.MarkerFree.nameOf (h : types.MarkerFree) (hname : types.nameOf type language = .ok text) :
    Unmarked text.toList := by
  obtain ⟨entry, hentry, htext⟩ := exists_mem_texts_of_nameOf hname
  exact h entry hentry text htext

theorem Constant.MarkerFree.typeIn (h : constant.MarkerFree) (hname : constant.typeIn language = .ok text) :
    Unmarked text.toList := by
  unfold Constant.typeIn at hname
  split at hname
  next found hfound =>
    cases hname
    exact h.types _ (mem_texts_of_get? hfound)
  next => cases hname

end Types

theorem Version.MarkerFree.text {version : Version} (h : version.MarkerFree) :
    Unmarked version.text.toList :=
  (((((closed_of_nominal (nominal_toString_nat _)).literal rfl).name
    (nominal_toString_nat _)).literal rfl).name (nominal_toString_nat _)).free h

theorem Version.closed_quote {text : String} (h : Unmarked text.toList) : Closed (Version.quote text) :=
  ((closed_literal rfl).free h).fence rfl

namespace Naming

variable {name owner : String}

theorem nominal_bareName (h : Nominal name) : Nominal (bareName name) := by
  unfold bareName
  split
  · intro c hc
    rw [String.toList_ofList] at hc
    exact h c (List.mem_of_mem_drop hc)
  · exact h

theorem nominal_capitalize (h : Nominal name) : Nominal (capitalize name) := by
  intro c hc
  rw [capitalize, String.toList_ofList] at hc
  unfold Nominal at h
  cases hname : name.toList with
  | nil => simp [hname, capitalizeWord] at hc
  | cons first rest =>
      rw [hname] at h hc
      obtain ⟨hfirst, hrest⟩ := List.forall_mem_cons.mp h
      rcases List.mem_append.mp hc with hupper | hlower
      · exact isNominal_upper hfirst c hupper
      · obtain ⟨d, hd, hmem⟩ := List.mem_flatMap.mp hlower
        exact isNominal_lower (hrest d hd) c hmem

theorem nominal_mockName (h : Nominal name) : Nominal (mockName name) :=
  nominal_append.mpr ⟨by decide, nominal_bareName h⟩

theorem nominal_delegateName (h : Nominal name) : Nominal (Signature.delegateName name) :=
  nominal_append.mpr ⟨nominal_bareName h, by decide⟩

theorem nominal_callbackName (h : Nominal owner) (h' : Nominal name) :
    Nominal (Signature.callbackName owner name) :=
  nominal_append.mpr ⟨nominal_bareName h, nominal_capitalize h'⟩

end Naming

end Bindery
