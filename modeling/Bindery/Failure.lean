import Bindery.Checkout.Error
import Bindery.Render.Error

/-!
# Failures

What stops a run over an interface and a checkout, and what was being done when it stopped.
-/

namespace Bindery

/-- Why a run stopped. -/
inductive RunError where
  /-- code could not be rendered -/
  | emit (error : EmitError)
  /-- a file could not be brought up to date -/
  | file (error : FileError)
deriving DecidableEq, Repr

def RunError.message : RunError → String
  | .emit error => error.message
  | .file error => error.message

/-- The failure of the operating system behind the error, if there is one. -/
def RunError.source? : RunError → Option AccessFailure
  | .emit error => error.source?
  | .file error => error.source?

/-- What was being done, and why it could not be done. -/
structure Failure where
  context : String
  error : RunError
deriving DecidableEq, Repr

/-- The texts of a failure, from what was being done to what the operating system says. -/
def Failure.chain (failure : Failure) : List String :=
  [failure.context, failure.error.message]
    ++ (failure.error.source?.map AccessFailure.message).toList

end Bindery
