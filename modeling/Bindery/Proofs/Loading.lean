import Bindery.Proofs.Members

/-!
# Loaded interfaces

An interface that is loaded is sound in all its parts, and each of its lists stands in the order of the
document.
-/

namespace Bindery

open Toml

/-- The entries of a section of a document. -/
def sectionEntries (table : Table) (name : String) : Table :=
  ((table.lookup name).bind Value.asTable?).getD []

theorem distinct_sectionEntries {table : Table} (htable : Value.Distinct (.table table))
    (name : String) : Value.Distinct (.table (sectionEntries table name)) := by
  unfold sectionEntries
  cases hentries : (table.lookup name).bind Value.asTable? with
  | none => exact .table (by simp [keys]) (by simp)
  | some entries =>
      obtain ⟨value, hvalue, heq⟩ := Option.bind_eq_some_iff.mp hentries
      obtain rfl := Value.eq_of_asTable? heq
      exact htable.entries _ (mem_of_lookup hvalue)

/-- The items of a section are read from its entries, one after the other. -/
theorem Records.forall₂_of_section? {α : Type} {table : Table} {name : String}
    {read : String → Value → Option α} {items : List α} (htable : Value.Distinct (.table table))
    (h : section? table name (Record.entries? read) = some (some items)) :
    List.Forall₂ (fun item entry => entry.2.Distinct ∧ read entry.1 entry.2 = some item) items
      (sectionEntries table name) := by
  have hentries := (distinct_sectionEntries htable name).entries
  unfold section? at h
  unfold sectionEntries at hentries ⊢
  split at h
  · cases h
  next value hvalue =>
    obtain ⟨others, hothers, heq⟩ := Option.map_eq_some_iff.mp h
    cases heq
    obtain ⟨entries, hfound, hitems⟩ := Option.bind_eq_some_iff.mp hothers
    simp only [hvalue, Option.bind_some, hfound, Option.getD_some] at hentries ⊢
    exact (forall₂_of_mapM_option hitems).imp fun item entry hentry =>
      ⟨hentries entry hentry.1, hentry.2⟩

/-- Items that are named by the entries of a section have different names. -/
theorem names_nodup_of_forall₂ {α : Type} {table : Table} {name : String} {itemName : α → String}
    {InOrder : α → String × Value → Prop} {items : List α} (htable : Value.Distinct (.table table))
    (h : List.Forall₂ (fun item entry => itemName item = entry.1 ∧ InOrder item entry) items
      (sectionEntries table name)) :
    (items.map itemName).Nodup := by
  rw [map_eq_keys_iff.mpr (h.imp fun item entry hentry => hentry.1)]
  exact (distinct_sectionEntries htable name).nodup

/-- The sections of a description are read from those of a document. -/
structure Records.ReadFrom (records : Records) (table : Table) : Prop where
  constants : section? table "constants" (Record.entries? Record.constant?) = some records.constants?
  functions : section? table "functions" (Record.entries? Record.function?) = some records.functions?
  enumerations : section? table "enums" (Record.entries? Record.table?) = some records.enumerations?
  flagSets : section? table "flags" (Record.entries? Record.table?) = some records.flagSets?
  types : section? table "type_mappings" (Record.entries? fun key value =>
    (Record.typeNames? value).map (key, ·)) = some records.types?

theorem Records.readFrom_of_ofTable? {table : Table} {records : Records}
    (h : ofTable? table = some records) : records.ReadFrom table := by
  unfold ofTable? at h
  dsimp only at h
  split at h
  · cases h
  obtain ⟨copyright?, -, h⟩ := Option.bind_eq_some_iff.mp h
  obtain ⟨version?, -, h⟩ := Option.bind_eq_some_iff.mp h
  obtain ⟨constants?, hconstants, h⟩ := Option.bind_eq_some_iff.mp h
  obtain ⟨functions?, hfunctions, h⟩ := Option.bind_eq_some_iff.mp h
  obtain ⟨enumerations?, henumerations, h⟩ := Option.bind_eq_some_iff.mp h
  obtain ⟨flagSets?, hflagSets, h⟩ := Option.bind_eq_some_iff.mp h
  obtain ⟨types?, htypes, h⟩ := Option.bind_eq_some_iff.mp h
  cases h
  exact ⟨hconstants, hfunctions, henumerations, hflagSets, htypes⟩

/-- What holds of a constant by itself. -/
structure Constant.Sound (constant : Constant) : Prop where
  name_valid : Identifier.IsValid constant.name
  line : ∀ text, constant.value = .line text → '\n' ∉ text.toList
  lines : ∀ text, constant.value = .lines text → '\n' ∈ text.toList

/-- The items of a constant that is a list stand in the order of the document. -/
def Constant.InOrder (constant : Constant) (value : Toml.Value) : Prop :=
  ∀ items, constant.value = .list items → Record.field? "value" 0 value = some (.array items)

theorem Constant.of_ofRecord {place : Place} {name : String} {value : Toml.Value}
    {record : Record.ConstantFields} {constant : Constant}
    (hread : Record.constant? name value = some record) (h : ofRecord place record = .ok constant) :
    constant.Sound ∧ constant.name = name ∧ constant.InOrder value := by
  obtain ⟨fields, hfields, hread⟩ := Option.bind_eq_some_iff.mp hread
  obtain ⟨found, hfound, hread⟩ := Option.bind_eq_some_iff.mp hread
  obtain ⟨help, -, hread⟩ := Option.bind_eq_some_iff.mp hread
  obtain ⟨types, -, hread⟩ := Option.bind_eq_some_iff.mp hread
  cases hread
  have hfield : fields.lookup "value" = Record.field? "value" 0 value :=
    Record.lookup_of_fields? (by decide) rfl hfields
  rw [hfound] at hfield
  obtain ⟨⟨⟩, hname, h⟩ := except_bind_eq_ok_iff.mp h
  have hvalid := Place.checkName_eq_ok_iff.mp hname
  unfold Constant.InOrder
  rw [← hfield]
  dsimp only at h hvalid
  cases found with
  | string text =>
      cases h
      by_cases hbreak : '\n' ∈ text.toList
      · exact ⟨⟨hvalid, by simp [hbreak], by simp [hbreak]⟩, rfl, by simp [hbreak]⟩
      · exact ⟨⟨hvalid, by simp [hbreak], by simp [hbreak]⟩, rfl, by simp [hbreak]⟩
  | integer _ | float _ | array _ =>
      cases h
      exact ⟨⟨hvalid, by simp, by simp⟩, rfl, by simp⟩
  | boolean _ | datetime _ | table _ => cases h

namespace Interface

/-- What the loader lets through: all parts of the interface are sound, signatures at whatever depth,
and no two constants, functions, enumerations or flag sets have one name. -/
structure Sound (interface : Interface) : Prop where
  constants : ∀ constant ∈ interface.constants, constant.Sound
  functions : ∀ function ∈ interface.functions, ∀ signature, function.Nests signature → signature.Sound
  enumerations : ∀ enumeration ∈ interface.enumerations, enumeration.Sound
  flagSets : ∀ set ∈ interface.flagSets, set.Sound
  constant_names_nodup : (interface.constants.map Constant.name).Nodup
  function_names_nodup : (interface.functions.map Function.name).Nodup
  enumeration_names_nodup : (interface.enumerations.map Enumeration.name).Nodup
  flagSet_names_nodup : (interface.flagSets.map FlagSet.name).Nodup

/-- The lists of an interface stand in the order of the document that describes it. -/
structure InOrder (interface : Interface) (table : Table) : Prop where
  constants : List.Forall₂ (fun constant entry => constant.name = entry.1 ∧ constant.InOrder entry.2)
    interface.constants (sectionEntries table "constants")
  functions : List.Forall₂
    (fun function entry => function.name = entry.1 ∧
      Argument.Listed function.args (Record.argumentEntries entry.2))
    interface.functions (sectionEntries table "functions")
  enumerations : List.Forall₂
    (fun enumeration entry => enumeration.name = entry.1 ∧
      ∃ entries, Record.freeEntries? entry.2 = some entries ∧ enumeration.InOrder entries)
    interface.enumerations (sectionEntries table "enums")
  flagSets : List.Forall₂
    (fun set entry => set.name = entry.1 ∧
      ∃ entries, Record.freeEntries? entry.2 = some entries ∧ set.InOrder entries)
    interface.flagSets (sectionEntries table "flags")
  types : interface.types.map Prod.fst = keys (sectionEntries table "type_mappings")

theorem required_eq_ok_iff {α : Type} {file name : String} {section? : Option α} {value : α} :
    required file name section? = .ok value ↔ section? = some value := by
  cases section? <;> simp [required]

variable {file source : String} {table : Table} {records : Records} {interface : Interface}

theorem constants_of_mapM {place : Place} {records : List Record.ConstantFields}
    {constants : List Constant} (htable : Value.Distinct (.table table))
    (hread : Records.section? table "constants" (Record.entries? Record.constant?) = some (some records))
    (h : records.mapM (Constant.ofRecord place) = .ok constants) :
    List.Forall₂ (fun constant entry => constant.Sound ∧ constant.name = entry.1 ∧
      constant.InOrder entry.2) constants (sectionEntries table "constants") :=
  forall₂_trans (forall₂_of_mapM h) (Records.forall₂_of_section? htable hread)
    fun _ _ _ hconstant hrecord => Constant.of_ofRecord hrecord.2 hconstant

theorem functions_of_forM {place : Place} {functions : List Function}
    (htable : Value.Distinct (.table table))
    (hread : Records.section? table "functions" (Record.entries? Record.function?) =
      some (some functions))
    (h : functions.forM (Function.check place) = .ok ()) :
    List.Forall₂ (fun function entry => function.Admitted ∧ function.name = entry.1 ∧
      Argument.Listed function.args (Record.argumentEntries entry.2)) functions
      (sectionEntries table "functions") := by
  refine ((List.forall₂_and_left _ _).mpr
    ⟨succeeds_of_forM ⟨_, h⟩, Records.forall₂_of_section? htable hread⟩).imp ?_
  rintro function entry ⟨⟨⟨⟩, hcheck⟩, hvalue, hfunction⟩
  obtain ⟨hname, hargs⟩ := Record.function?_eq_some hfunction
  exact ⟨Function.admitted_of_check hvalue hfunction hcheck, hname,
    Argument.listed_of_arguments? (Record.distinct_argumentEntries hvalue) hargs⟩

/-- What the tables of a section describe is read from the entries of the section. -/
theorem tables_of_mapM {α : Type} {name : String} {tables : List (String × Table)} {items : List α}
    {read : String × Table → Except LoadError α} {itemName : α → String} {Good : α → Prop}
    {InOrder : α → Table → Prop} (htable : Value.Distinct (.table table))
    (hread : Records.section? table name (Record.entries? Record.table?) = some (some tables))
    (hitem : ∀ key entries item, Value.Distinct (.table entries) → read (key, entries) = .ok item →
      itemName item = key ∧ Good item ∧ InOrder item entries)
    (h : tables.mapM read = .ok items) :
    List.Forall₂ (fun item entry => Good item ∧ itemName item = entry.1 ∧
      ∃ entries, Record.freeEntries? entry.2 = some entries ∧ InOrder item entries) items
      (sectionEntries table name) := by
  refine forall₂_trans (forall₂_of_mapM h) (Records.forall₂_of_section? htable hread) ?_
  rintro item ⟨key, entries⟩ entry hread ⟨hvalue, hentry⟩
  obtain ⟨free, hfree, heq⟩ := Option.map_eq_some_iff.mp hentry
  cases heq
  obtain ⟨hname, hgood, horder⟩ :=
    hitem entry.1 entries item (Record.distinct_of_freeEntries? hvalue hfree) hread
  exact ⟨hgood, hname, entries, hfree, horder⟩

theorem types_of_section? {types : TypeMap} (htable : Value.Distinct (.table table))
    (hread : Records.section? table "type_mappings" (Record.entries? fun key value =>
      (Record.typeNames? value).map (key, ·)) = some (some types)) :
    types.map Prod.fst = keys (sectionEntries table "type_mappings") := by
  refine map_eq_keys_iff.mpr ((Records.forall₂_of_section? htable hread).imp ?_)
  rintro type entry ⟨-, hentry⟩
  obtain ⟨names, -, rfl⟩ := Option.map_eq_some_iff.mp hentry
  rfl

theorem of_ofRecords (htable : Value.Distinct (.table table)) (hread : records.ReadFrom table)
    (h : ofRecords file source records = .ok interface) : interface.Sound ∧ interface.InOrder table := by
  -- every section is there
  obtain ⟨copyright, -, h⟩ := except_bind_eq_ok_iff.mp h
  obtain ⟨version, -, h⟩ := except_bind_eq_ok_iff.mp h
  obtain ⟨constantRecords, hconstants, h⟩ := except_bind_eq_ok_iff.mp h
  obtain ⟨functions, hfunctions, h⟩ := except_bind_eq_ok_iff.mp h
  obtain ⟨enumTables, henumerations, h⟩ := except_bind_eq_ok_iff.mp h
  obtain ⟨flagTables, hflagSets, h⟩ := except_bind_eq_ok_iff.mp h
  obtain ⟨types, htypes, h⟩ := except_bind_eq_ok_iff.mp h
  rw [required_eq_ok_iff] at hconstants hfunctions henumerations hflagSets htypes
  -- and what is in it is checked
  obtain ⟨constants, hchecked, h⟩ := except_bind_eq_ok_iff.mp h
  have hconstants := constants_of_mapM htable (hconstants ▸ hread.constants) hchecked
  obtain ⟨⟨⟩, hchecked, h⟩ := except_bind_eq_ok_iff.mp h
  have hfunctions := functions_of_forM htable (hfunctions ▸ hread.functions) hchecked
  obtain ⟨enumerations, hchecked, h⟩ := except_bind_eq_ok_iff.mp h
  have henumerations := tables_of_mapM htable (henumerations ▸ hread.enumerations)
    (fun _ _ _ hentries => Enumeration.of_ofTable hentries) hchecked
  obtain ⟨flagSets, hchecked, h⟩ := except_bind_eq_ok_iff.mp h
  have hflagSets := tables_of_mapM htable (hflagSets ▸ hread.flagSets)
    (fun _ _ _ hentries => FlagSet.of_ofTable hentries) hchecked
  cases h
  obtain ⟨hconstantsSound, hconstantsOrder⟩ := (List.forall₂_and_left _ _).mp hconstants
  obtain ⟨hadmitted, hfunctionsOrder⟩ := (List.forall₂_and_left _ _).mp hfunctions
  obtain ⟨henumerationsSound, henumerationsOrder⟩ := (List.forall₂_and_left _ _).mp henumerations
  obtain ⟨hflagSetsSound, hflagSetsOrder⟩ := (List.forall₂_and_left _ _).mp hflagSets
  refine ⟨?_, ?_⟩
  · exact
      { constants := hconstantsSound
        functions := fun function hfunction signature hnests =>
          ((hadmitted function hfunction).nested hnests).sound
        enumerations := henumerationsSound
        flagSets := hflagSetsSound
        constant_names_nodup := names_nodup_of_forall₂ htable hconstantsOrder
        function_names_nodup := names_nodup_of_forall₂ htable hfunctionsOrder
        enumeration_names_nodup := names_nodup_of_forall₂ htable henumerationsOrder
        flagSet_names_nodup := names_nodup_of_forall₂ htable hflagSetsOrder }
  · exact
      { constants := hconstantsOrder
        functions := hfunctionsOrder
        enumerations := henumerationsOrder
        flagSets := hflagSetsOrder
        types := types_of_section? htable (htypes ▸ hread.types) }

/-- A text from which an interface is loaded is read as a document with all the sections. -/
theorem exists_records_of_load (h : load file source = .ok interface) :
    ∃ table records, Toml.read? source = some table ∧ records.ReadFrom table ∧
      ofRecords file source records = .ok interface := by
  unfold load at h
  split at h
  · cases h
  next records hrecords =>
    obtain ⟨table, htable, hread⟩ := Option.bind_eq_some_iff.mp hrecords
    exact ⟨table, records, htable, Records.readFrom_of_ofTable? hread, h⟩

/-- An interface that is loaded is sound, and its lists stand in the order of the document that is read
from the text. -/
theorem load_sound (h : load file source = .ok interface) :
    interface.Sound ∧ ∃ table, Toml.read? source = some table ∧ interface.InOrder table := by
  obtain ⟨table, records, htable, hread, h⟩ := exists_records_of_load h
  obtain ⟨hsound, horder⟩ := of_ofRecords (distinct_of_read? htable) hread h
  exact ⟨hsound, table, htable, horder⟩

end Interface

/-- The document that lexemes make up. -/
def Toml.ofLexemes? (lexemes : List Lexeme) : Option Table := do
  let statements ← statementsWithin lexemes.length lexemes
  let draft ← statements.foldlM Draft.add ⟨[], []⟩
  some (entryValues draft.entries)

theorem Toml.read?_eq (text : String) : read? text = (lexemes text.toList).bind ofLexemes? := rfl

namespace Interface

/-- What the characters of a text describe. The text itself, which is costly to decode, is only looked at for
the place of an error. -/
def described? (file source : String) (text : List Char) : Option Interface :=
  (((Toml.lexemes text).bind Toml.ofLexemes?).bind Records.ofTable?).bind fun records =>
    (ofRecords file source records).toOption

theorem toOption_load (file source : String) :
    (load file source).toOption = described? file source source.toList := by
  rw [described?, ← Toml.read?_eq, load]
  cases (Toml.read? source).bind Records.ofTable? <;> rfl

theorem exists_load_of_described {text : List Char} {holds : Interface → Prop} [DecidablePred holds]
    (htext : source.toList = text)
    (h : (described? file source text).any (fun interface => decide (holds interface)) = true) :
    ∃ interface, load file source = .ok interface ∧ holds interface := by
  rw [← htext, ← toOption_load] at h
  obtain ⟨interface, hinterface, hholds⟩ := (Option.any_eq_true _ _).mp h
  exact ⟨interface, except_toOption_eq_some_iff.mp hinterface, of_decide_eq_true hholds⟩

end Interface

namespace Sample

/-- A description with a callback that takes a callback, enumerations of two numberings and a flag made
of other flags. -/
def description : String :=
"copyright = \"\"

[version]
major = 1
minor = 2
patch = 3

[constants.PORT]
value = 4711
help = \"The port.\"
type = [\"int\", \"int\", \"int\", \"c_int\"]

[constants.GREETING]
value = \"hello\"
type = [\"const char*\", \"std::string\", \"string\", \"c_char_p\"]

[functions.Visit]
return_type = \"int\"

[functions.Visit.args]
handle = \"void*\"

[functions.Visit.args.step]
return_type = \"int\"

[functions.Visit.args.step.args]
depth = \"int\"
again = [\"int\"]

[enums.error_code]
ok = \"No error.\"
unknown = \"An error.\"

[enums.http_status]
prefix = \"HTTP\"

[enums.http_status.members]
200 = \"Found.\"
-1 = \"Not sent.\"

[flags.events.sent]
bit = 0

[flags.events.received]
bit = 1

[flags.events.all]
combine = [\"sent\", \"received\"]

[type_mappings]
int = [\"int\", \"int\", \"int\", \"c_int\"]
\"void*\" = [\"void*\", \"void*\", \"IntPtr\", \"c_void_p\"]
"

set_option maxRecDepth 10000 in
theorem exists_load : ∃ interface, Interface.load "core_api.toml" description = .ok interface := by
  obtain ⟨interface, hload, -⟩ : ∃ interface,
      Interface.load "core_api.toml" description = .ok interface ∧ True :=
    Interface.exists_load_of_described String.toList_ofList (by decide)
  exact ⟨interface, hload⟩

end Sample

theorem Interface.load_sound_described : ∃ interface,
    load "core_api.toml" Sample.description = .ok interface ∧ interface.Sound
      ∧ ∃ table, Toml.read? Sample.description = some table ∧ interface.InOrder table := by
  obtain ⟨interface, hload⟩ := Sample.exists_load
  exact ⟨interface, hload, load_sound hload⟩

end Bindery
