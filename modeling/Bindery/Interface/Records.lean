import Bindery.Interface.Basic
import Bindery.Toml.Document

/-!
# Records of a document

The sections of a description as the document writes them, before their contents are checked. A
record is written as a table of its fields, none of which may be unknown, or as the list of its fields
in order, where only fields at the end may be missing. Where the keys are free, a date stands for a
table of one entry.
-/

namespace Bindery.Record

open Toml

-- powers are those of the core library, whatever else is imported
attribute [local instance (2000)] instPowNat

/-- The fields of a record that were written. -/
abbrev Fields := List (String × Value)

/-- The fields of a record with the given names. A `strict` record written as a list has no surplus
items. -/
def fields? (strict : Bool) (names : List String) : Value → Option Fields
  | .table entries =>
      if entries.all fun (key, _) => names.contains key then some entries else none
  | .array items =>
      if strict && names.length < items.length then none else some (names.zip items)
  | _ => none

def text? (fields : Fields) (name : String) : Option String :=
  (fields.lookup name).bind Value.asString?

/-- A text that is empty when it is missing. -/
def textOrEmpty? (fields : Fields) (name : String) : Option String :=
  match fields.lookup name with
  | none => some ""
  | some value => value.asString?

/-- A number of a version, which has 32 bits. -/
def number? (fields : Fields) (name : String) : Option Nat := do
  let value ← (fields.lookup name).bind Value.asInteger?
  if 0 ≤ value && value < 2 ^ (32 : Nat) then some value.toNat else none

def version? (value : Value) : Option Version := do
  let fields ← fields? false ["major", "minor", "patch", "suffix"] value
  some
    { major := ← number? fields "major"
      minor := ← number? fields "minor"
      patch := ← number? fields "patch"
      suffix := ← textOrEmpty? fields "suffix" }

/-- A name of a type, which may be missing. -/
def typeName? (fields : Fields) (language : Language) : Option (Option String) :=
  match fields.lookup language.key with
  | none => some none
  | some value => value.asString?.map some

/-- The names of a type. Written as a list, none is missing. -/
def typeNames? (value : Value) : Option TypeNames := do
  let fields ← fields? false (Language.all.map Language.key) value
  if value.asArray?.isSome && fields.length < Language.all.length then none
  some
    { c? := ← typeName? fields .c
      cpp? := ← typeName? fields .cpp
      csharp? := ← typeName? fields .csharp
      python? := ← typeName? fields .python }

/-- A constant whose value may be of any kind. -/
structure ConstantFields where
  name : String
  value : Value
  help : String
  types : TypeNames

def constant? (name : String) (value : Value) : Option ConstantFields := do
  let fields ← fields? false ["value", "help", "type"] value
  some
    { name
      value := ← fields.lookup "value"
      help := ← textOrEmpty? fields "help"
      types := ← (fields.lookup "type").bind typeNames? }

/-- The key that a date has as a table. -/
def datetimeKey : String := "$__toml_private_datetime"

/-- The entries of a value where the keys are free: a date has its text as the one entry. -/
def freeEntries? : Value → Option Table
  | .table entries => some entries
  | .datetime value => some [(datetimeKey, .string value.text)]
  | _ => none

def datetimeArguments (value : Datetime) : List Argument :=
  [.scalar datetimeKey value.text]

mutual

/-- An argument: a text is a canonical type, a record a callback. -/
def argument? (name : String) : Value → Option Argument
  | .string type => some (.scalar name type)
  | .table entries => callback? name none none entries
  | .array [.string returnType] => some (.callback name returnType [])
  | .array [.string returnType, .table entries] =>
      (arguments? entries).map (.callback name returnType)
  | .array [.string returnType, .datetime value] =>
      some (.callback name returnType (datetimeArguments value))
  | _ => none

/-- A callback written as a table, of which some fields were read already. -/
def callback? (name : String) (returnType? : Option String) (args? : Option (List Argument)) :
    List (String × Value) → Option Argument
  | [] => returnType?.map fun returnType => .callback name returnType (args?.getD [])
  | (key, .string text) :: rest =>
      if key = "return_type" then callback? name (some text) args? rest else none
  | (key, .table entries) :: rest =>
      if key = "args" then
        (arguments? entries).bind fun args => callback? name returnType? (some args) rest
      else none
  | (key, .datetime value) :: rest =>
      if key = "args" then callback? name returnType? (some (datetimeArguments value)) rest else none
  | _ :: _ => none

/-- Arguments, of which the keys are the names. -/
def arguments? : List (String × Value) → Option (List Argument)
  | [] => some []
  | (name, value) :: rest =>
      (argument? name value).bind fun arg => (arguments? rest).map (arg :: ·)

end

def function? (name : String) (value : Value) : Option Function := do
  let fields ← fields? false ["return_type", "args"] value
  let args ←
    match fields.lookup "args" with
    | none => some []
    | some value => (freeEntries? value).bind arguments?
  some { name, returnType := ← text? fields "return_type", args }

/-- The entries of a table, each read with its key. -/
def entries? {α : Type} (read : String → Value → Option α) (value : Value) : Option (List α) :=
  value.asTable?.bind fun entries => entries.mapM fun (key, value) => read key value

def table? (key : String) (value : Value) : Option (String × Table) :=
  (freeEntries? value).map (key, ·)

end Bindery.Record

namespace Bindery

/-- The sections of a description as they were written. -/
structure Records where
  copyright? : Option String
  version? : Option Version
  constants? : Option (List Record.ConstantFields)
  functions? : Option (List Function)
  enumerations? : Option (List (String × Toml.Table))
  flagSets? : Option (List (String × Toml.Table))
  types? : Option TypeMap

end Bindery

namespace Bindery.Records

def sectionNames : List String :=
  ["copyright", "version", "constants", "functions", "enums", "flags", "type_mappings"]

def section? {α : Type} (table : Toml.Table) (name : String) (read : Toml.Value → Option α) :
    Option (Option α) :=
  match table.lookup name with
  | none => some none
  | some value => (read value).map some

def ofTable? (table : Toml.Table) : Option Records := do
  if table.any fun (key, _) => !sectionNames.contains key then none
  some
    { copyright? := ← section? table "copyright" Toml.Value.asString?
      version? := ← section? table "version" Record.version?
      constants? := ← section? table "constants" (Record.entries? Record.constant?)
      functions? := ← section? table "functions" (Record.entries? Record.function?)
      enumerations? := ← section? table "enums" (Record.entries? Record.table?)
      flagSets? := ← section? table "flags" (Record.entries? Record.table?)
      types? := ← section? table "type_mappings"
        (Record.entries? fun key value => (Record.typeNames? value).map (key, ·)) }

end Bindery.Records
