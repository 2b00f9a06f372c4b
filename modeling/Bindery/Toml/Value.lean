import Bindery.Decimal.Binary64
import Bindery.Toml.Datetime

/-!
# Values of a document

A document is a table; the values of a table are texts, numbers, truth values, dates, lists and
tables. Tables and lists keep the order of the document.
-/

namespace Bindery.Toml

/-- A value of a document. -/
inductive Value where
  | string (text : String)
  | integer (value : Int)
  | float (value : Binary64)
  | boolean (value : Bool)
  | datetime (value : Datetime)
  | array (items : List Value)
  | table (entries : List (String × Value))
deriving Repr, Inhabited

/-- The entries of a table. -/
abbrev Table := List (String × Value)

namespace Value

def kind : Value → String
  | .string _ => "string"
  | .integer _ => "integer"
  | .float _ => "float"
  | .boolean _ => "boolean"
  | .datetime _ => "datetime"
  | .array _ => "array"
  | .table _ => "table"

/-- The text of a value that is one. -/
def asString? : Value → Option String
  | .string text => some text
  | _ => none

/-- The number of a value that is a whole one. -/
def asInteger? : Value → Option Int
  | .integer value => some value
  | _ => none

/-- The items of a value that is a list. -/
def asArray? : Value → Option (List Value)
  | .array items => some items
  | _ => none

/-- The entries of a value that is a table. -/
def asTable? : Value → Option Table
  | .table entries => some entries
  | _ => none

end Value

end Bindery.Toml
