import Bindery.Checkout.Basic
import Bindery.Interface.FlagSet
import Bindery.Interface.Identifier

/-!
# What can be wrong with a description

The reasons for which a description is not accepted, with the place of the fault where it can be
named.
-/

namespace Bindery

/-- A piece of a text: where it starts and how long it is, in bytes. -/
structure Span where
  offset : Nat
  length : Nat
deriving DecidableEq, Repr

/-- A fault in the contents of a description. -/
inductive Problem where
  | unsupportedValue (constant kind : String)
  | emptyReturnType (function : String)
  | emptyArgumentType (argument : String)
  | unknownField (field owner : String)
  | fieldNotText (owner field : String)
  | unknownNumbering (name : String)
  | memberHelpNotText (enumeration member : String)
  | memberNotInteger (enumeration member : String)
  | numberedFlags (set : String)
  | flagNotTable (set flag : String)
  | flagHelpNotText (set flag : String)
  | bitOutOfRange (set flag : String)
  | combineNotNames (set flag : String)
  | unknownFlagField (field set flag : String)
  | bitOrCombine (set flag : String)
deriving DecidableEq, Repr

def Problem.message : Problem → String
  | .unsupportedValue constant kind =>
      "constant '" ++ constant ++ "' has an unsupported value type '" ++ kind
        ++ "' (expected integer, float, string or array)"
  | .emptyReturnType function => "function '" ++ function ++ "' has an empty return type"
  | .emptyArgumentType argument => "argument '" ++ argument ++ "' has an empty type"
  | .unknownField field owner =>
      "unknown field '" ++ field ++ "' in '" ++ owner
        ++ "' (expected prefix, numbering or members)"
  | .fieldNotText owner field => "'" ++ owner ++ "." ++ field ++ "' must be a string"
  | .unknownNumbering name =>
      "unknown numbering policy '" ++ name ++ "' (expected sequential, zero_and_descending, "
        ++ "minus_one_ascending or explicit_keyed)"
  | .memberHelpNotText enumeration member =>
      "help text of '" ++ enumeration ++ "." ++ member ++ "' must be a string"
  | .memberNotInteger enumeration member =>
      "member '" ++ member ++ "' of explicit-keyed enum '" ++ enumeration
        ++ "' must be an integer key"
  | .numberedFlags set => "flag set '" ++ set ++ "' cannot have a numbering policy"
  | .flagNotTable set flag =>
      "flag '" ++ set ++ "." ++ flag ++ "' must be a table with 'bit' or 'combine'"
  | .flagHelpNotText set flag => "help of '" ++ set ++ "." ++ flag ++ "' must be a string"
  | .bitOutOfRange set flag =>
      "bit of '" ++ set ++ "." ++ flag ++ "' must be an integer in 0..=" ++ toString maxBit
        ++ " or \"none\""
  | .combineNotNames set flag =>
      "combine of '" ++ set ++ "." ++ flag ++ "' must be a list of flag names"
  | .unknownFlagField field set flag =>
      "unknown field '" ++ field ++ "' in flag '" ++ set ++ "." ++ flag
        ++ "' (expected bit, combine or help)"
  | .bitOrCombine set flag =>
      "flag '" ++ set ++ "." ++ flag ++ "' needs exactly one of 'bit' or 'combine'"

/-- Why a description is not accepted. -/
inductive LoadError where
  /-- the file could not be read -/
  | unreadable (path : Path) (failure : AccessFailure)
  /-- the text is no document, or its parts do not have the expected shape -/
  | malformed (file : String)
  | missingSection (file name : String)
  | invalid (file : String) (span? : Option Span) (problem : Problem)
  | invalidName (file : String) (span? : Option Span) (name context : String)
      (fault : Identifier.Fault)
deriving DecidableEq, Repr

def LoadError.message : LoadError → String
  | .unreadable path _ => "failed to read '" ++ path.text ++ "'"
  | .malformed _ => "failed to parse interface description"
  | .missingSection _ name => "missing required section '" ++ name ++ "'"
  | .invalid _ _ problem => problem.message
  | .invalidName _ _ name context _ => "invalid " ++ context ++ " name '" ++ name ++ "'"

/-- The failure of the operating system behind the error, if there is one. -/
def LoadError.source? : LoadError → Option AccessFailure
  | .unreadable _ failure => some failure
  | _ => none

end Bindery
