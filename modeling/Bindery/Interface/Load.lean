import Bindery.Interface.Place
import Bindery.Interface.Records
import Bindery.Text.Blank

/-!
# Loading a description

A description is accepted when its document is well-formed, no section is missing and the contents
of the sections are sound, which is checked in this order. The first fault is reported.
-/

namespace Bindery

open Text Toml

/-- The name under which a description goes when it is not read from a file. -/
def defaultFile : String := "core_api.toml"

/-- A constant whose value is of a supported kind. -/
def Constant.ofRecord (place : Place) (record : Record.ConstantFields) :
    Except LoadError Constant := do
  place.checkName record.name "constant"
  match Constant.Value.ofToml? record.value with
  | some value => .ok { name := record.name, types := record.types, value, help := record.help }
  | none => .error (place.invalid record.name (.unsupportedValue record.name record.value.kind))

mutual

/-- Refuses an argument without a proper name or type. -/
def Argument.check (place : Place) : Argument → Except LoadError Unit
  | .scalar name type => do
      place.checkName name "argument"
      if isBlankText type then .error (place.invalid name (.emptyArgumentType name))
  | .callback name returnType args => do
      place.checkName name "argument"
      if isBlankText returnType then .error (place.invalid name (.emptyReturnType name))
      Argument.checkAll (place.enter name) args

/-- Refuses arguments of which one is not sound. -/
def Argument.checkAll (place : Place) : List Argument → Except LoadError Unit
  | [] => .ok ()
  | arg :: rest => do
      arg.check place
      Argument.checkAll place rest

end

/-- Refuses a function whose name, types or arguments are not sound. -/
def Function.check (place : Place) (function : Function) : Except LoadError Unit := do
  place.checkName function.name "function"
  if isBlankText function.returnType then
    .error (place.invalid function.name (.emptyReturnType function.name))
  Argument.checkAll (place.enter function.name) function.args

/-- What the extended form of an enumeration or flag set says besides its members. -/
structure Extension where
  macroPrefix? : Option String
  numbering? : Option String

/-- The extended form's fields other than the members. -/
def Extension.ofFields (place : Place) (owner : String) (extension : Extension) :
    Table → Except LoadError Extension
  | [] => .ok extension
  | (key, value) :: rest => do
      if key = "members" then ofFields place owner extension rest
      else if key = "prefix" || key = "numbering" then
        match value.asString? with
        | none => .error (place.invalid key (.fieldNotText owner key))
        | some text =>
            if key = "prefix" then
              ofFields place owner { extension with macroPrefix? := some text } rest
            else ofFields place owner { extension with numbering? := some text } rest
      else .error (place.invalid key (.unknownField key owner))

/-- Splits an enumeration or flag set into its extension and its members. It has the extended form
when it has a table of members all of whose values look like members; otherwise the whole table is
the table of members. -/
def Extension.split (place : Place) (owner : String) (isMember : Value → Bool) (table : Table) :
    Except LoadError (Extension × Table) := do
  match (table.lookup "members").bind Value.asTable? with
  | some members =>
      if members.all fun (_, value) => isMember value then
        .ok (← Extension.ofFields place owner ⟨none, none⟩ table, members)
      else .ok (⟨none, none⟩, table)
  | none => .ok (⟨none, none⟩, table)

def Member.ofEntry (place : Place) (enumeration : String) (numbering : Numbering)
    (name : String) (value : Value) : Except LoadError Member :=
  match value.asString? with
  | none => .error (place.invalid name (.memberHelpNotText enumeration name))
  | some help =>
      if numbering = .explicitKeyed then
        match readKeyInteger? name.toList with
        | some value => .ok { name, help, value? := some value }
        | none => .error (place.invalid name (.memberNotInteger enumeration name))
      else do
        place.checkName name "enum member"
        .ok { name, help, value? := none }

/-- Refuses the prefix of macros that is no identifier. -/
def checkMacroPrefix (place : Place) (kind : String) : Option String → Except LoadError Unit
  | none => .ok ()
  | some macroPrefix => place.checkName macroPrefix kind

/-- The numbering of an enumeration: the one it names, or the one that goes with its name. -/
def Numbering.choose (place : Place) (enumeration : String) :
    Option String → Except LoadError Numbering
  | none => .ok (.ofEnumeration enumeration)
  | some text =>
      match Numbering.ofText? text with
      | some numbering => .ok numbering
      | none => .error (place.invalid text (.unknownNumbering text))

def Enumeration.ofTable (place : Place) (name : String) (table : Table) :
    Except LoadError Enumeration := do
  place.checkName name "enum"
  let inner := place.enter name
  let (extension, entries) ← Extension.split inner name (·.asString?.isSome) table
  checkMacroPrefix inner "enum prefix" extension.macroPrefix?
  let numbering ← Numbering.choose inner name extension.numbering?
  let members ← entries.mapM fun (member, value) =>
    Member.ofEntry inner name numbering member value
  .ok { name, numbering, macroPrefix? := extension.macroPrefix?, members }

/-- The bit of a flag: a number up to `maxBit`, or none. -/
def Flag.bit? : Value → Option (Option Nat)
  | .string text => if text = "none" then some none else none
  | .integer value =>
      if 0 ≤ value && value ≤ (maxBit : Int) then some (some value.toNat) else none
  | _ => none

def Flag.names? (value : Value) : Option (List String) :=
  value.asArray?.bind fun items => items.mapM Value.asString?

/-- What the table of a flag says. -/
structure FlagFields where
  help : String
  bit? : Option (Option Nat)
  names? : Option (List String)

/-- The fields of a flag, added to those read before. -/
def FlagFields.ofEntries (place : Place) (set flag : String) (fields : FlagFields) :
    Table → Except LoadError FlagFields
  | [] => .ok fields
  | (key, value) :: rest =>
      if key = "help" then
        match value.asString? with
        | some help => ofEntries place set flag { fields with help } rest
        | none => .error (place.invalid flag (.flagHelpNotText set flag))
      else if key = "bit" then
        match Flag.bit? value with
        | some bit => ofEntries place set flag { fields with bit? := some bit } rest
        | none => .error (place.invalid flag (.bitOutOfRange set flag))
      else if key = "combine" then
        match Flag.names? value with
        | some names => ofEntries place set flag { fields with names? := some names } rest
        | none => .error (place.invalid flag (.combineNotNames set flag))
      else .error (place.invalid key (.unknownFlagField key set flag))

def Flag.ofEntry (place : Place) (set name : String) (value : Value) : Except LoadError Flag := do
  place.checkName name "flag"
  match value.asTable? with
  | none => .error (place.invalid name (.flagNotTable set name))
  | some table =>
      let fields ← FlagFields.ofEntries place set name ⟨"", none, none⟩ table
      match fields.bit?, fields.names? with
      | some bit, none => .ok { name, help := fields.help, kind := .bit bit }
      | none, some names => .ok { name, help := fields.help, kind := .combine names }
      | _, _ => .error (place.invalid name (.bitOrCombine set name))

def FlagSet.ofTable (place : Place) (name : String) (table : Table) :
    Except LoadError FlagSet := do
  place.checkName name "flag set"
  let inner := place.enter name
  let (extension, entries) ← Extension.split inner name (·.asTable?.isSome) table
  if extension.numbering?.isSome then
    .error (inner.invalid "numbering" (.numberedFlags name))
  checkMacroPrefix inner "flag set prefix" extension.macroPrefix?
  let flags ← entries.mapM fun (flag, value) => Flag.ofEntry inner name flag value
  .ok { name, macroPrefix? := extension.macroPrefix?, flags }

def required {α : Type} (file name : String) : Option α → Except LoadError α
  | some value => .ok value
  | none => .error (.missingSection file name)

namespace Interface

/-- The interface that the sections of a description describe. -/
def ofRecords (file source : String) (records : Records) : Except LoadError Interface := do
  let copyright ← required file "copyright" records.copyright?
  let version ← required file "version" records.version?
  let constants ← required file "constants" records.constants?
  let functions ← required file "functions" records.functions?
  let enumerations ← required file "enums" records.enumerations?
  let flagSets ← required file "flags" records.flagSets?
  let types ← required file "type_mappings" records.types?
  -- no section is looked into while another one is missing
  let start := Place.start file source
  let constants ← constants.mapM (Constant.ofRecord (start.enter "constants"))
  functions.forM (Function.check (start.enter "functions"))
  let enumerations ← enumerations.mapM fun (name, table) =>
    Enumeration.ofTable (start.enter "enums") name table
  let flagSets ← flagSets.mapM fun (name, table) =>
    FlagSet.ofTable (start.enter "flags") name table
  .ok { copyright, version, constants, functions, enumerations, flagSets, types }

/-- The interface that a text describes; the file is only named in the error. -/
def load (file source : String) : Except LoadError Interface :=
  match (Toml.read? source).bind Records.ofTable? with
  | none => .error (.malformed file)
  | some records => ofRecords file source records

def loadFile (checkout : Checkout) (path : Path) : Except LoadError Interface :=
  match checkout.read path with
  | .ok source => load path.text source
  | .error failure => .error (.unreadable path failure)

end Interface

end Bindery
