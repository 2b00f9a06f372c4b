import Bindery.Checkout.Basic

/-!
# What can go wrong with a file

The causes for which a file of a checkout is not read, renewed or written.
-/

namespace Bindery

/-- Why a file could not be brought up to date. -/
inductive FileError where
  /-- the file or folder could not be accessed -/
  | access (path : Path) (failure : AccessFailure)
  /-- the file has fewer blocks -/
  | noSuchBlock (path : Path) (index found : Nat)
  /-- the block that opens at a line has no end before the next one opens -/
  | unclosedBlock (path : Path) (index line : Nat)
  /-- the formatter failed -/
  | formatting (path : Path) (program detail : String)
  /-- the file does not start with a comment -/
  | noHeader (path : Path)
deriving DecidableEq, Repr

def FileError.message : FileError → String
  | .access path _ => "failed to access '" ++ path.text ++ "'"
  | .noSuchBlock path index found =>
      "'" ++ path.text ++ "' has " ++ toString found ++ " marker pair(s), block "
        ++ toString index ++ " does not exist"
  | .unclosedBlock path index line =>
      "'" ++ path.text ++ "': block " ++ toString index ++ " opens at line " ++ toString line
        ++ " but is never closed before the next begin marker"
  | .formatting path program detail =>
      "finishing pass '" ++ program ++ "' failed for '" ++ path.text ++ "': " ++ detail
  | .noHeader path => "'" ++ path.text ++ "' does not start with a /* ... */ copyright header"

/-- The failure of the operating system behind the error, if there is one. -/
def FileError.source? : FileError → Option AccessFailure
  | .access _ failure => some failure
  | _ => none

end Bindery
