import Bindery.Checkout.Basic
import Bindery.Interface.Language

/-!
# What can go wrong when code is rendered

The reasons for which no code is rendered for an accepted description.
-/

namespace Bindery

/-- Why code could not be rendered. -/
inductive EmitError where
  /-- a type has no name in a language -/
  | unmapped (type : String) (language : Language)
  /-- a flag combines another one that does not stand before it -/
  | unresolvedFlag (set flag reference : String)
  /-- a file or folder of the checkout could not be read -/
  | unreadable (path : Path) (failure : AccessFailure)
deriving DecidableEq, Repr

def EmitError.message : EmitError → String
  | .unmapped type language =>
      "type '" ++ type ++ "' has no mapping for target language '" ++ language.key ++ "'"
  | .unresolvedFlag set flag reference =>
      "flag '" ++ set ++ "." ++ flag ++ "' combines '" ++ reference
        ++ "', which is not declared before it"
  | .unreadable path _ => "failed to read '" ++ path.text ++ "'"

/-- The failure of the operating system behind the error, if there is one. -/
def EmitError.source? : EmitError → Option AccessFailure
  | .unreadable _ failure => some failure
  | _ => none

end Bindery
