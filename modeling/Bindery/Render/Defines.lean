import Bindery.Text.Blank
import Bindery.Text.Column

/-!
# Macro definitions

Definitions of macros with what they are for behind them, aligned in a column.
-/

namespace Bindery

open Text

/-- The definition of a macro, and what it is for. -/
structure Define where
  name : String
  value : String
  help : String
deriving DecidableEq, Repr

namespace Define

def directive (define : Define) : String := "#define " ++ define.name ++ " " ++ define.value

/-- A definition with its comment behind a column. -/
def line (width : Nat) (define : Define) : String :=
  let help := singleLine define.help
  if help.isEmpty then define.directive
  else padRight width define.directive ++ "  ///< " ++ help

def lines (defines : List Define) : List String :=
  defines.map (line (columnWidth (defines.map directive)))

end Define

/-- Groups of lines with blank lines between them. -/
def separate : List (List String) → List String
  | [] => []
  | [last] => last
  | group :: rest => group ++ "" :: separate rest

end Bindery
