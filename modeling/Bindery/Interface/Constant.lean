import Bindery.Interface.Language
import Bindery.Toml.Value

/-!
# Constants

A constant of an interface: its name, its type in each language, its value and what it is for.
-/

namespace Bindery

/-- The value of a constant. -/
inductive Constant.Value where
  | integer (value : Int)
  | float (value : Binary64)
  /-- a text without line feed -/
  | line (text : String)
  /-- a text with a line feed -/
  | lines (text : String)
  | list (items : List Toml.Value)
deriving Repr, Inhabited

/-- A named constant. -/
structure Constant where
  name : String
  types : TypeNames
  value : Constant.Value
  help : String
deriving Repr, Inhabited

/-- The value of a constant that a value of the document describes. -/
def Constant.Value.ofToml? : Toml.Value → Option Constant.Value
  | .integer value => some (.integer value)
  | .float value => some (.float value)
  | .string text => some (if text.toList.contains '\n' then .lines text else .line text)
  | .array items => some (.list items)
  | .boolean _ | .datetime _ | .table _ => none

end Bindery
