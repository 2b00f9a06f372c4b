import Bindery.Failure
import Bindery.Render.Types
import Bindery.Render.Values
import Bindery.Target

/-!
# Coverage

The check that an interface can be rendered for every target: its flag sets have values, and every
type has a name in each language that a target needs. No file is touched.
-/

namespace Bindery

/-- How many names of types a target was found to have. -/
structure Coverage where
  target : Target
  lookups : Nat
deriving DecidableEq, Repr

namespace Coverage

def ofTarget (interface : Interface) (target : Target) : Except Failure Coverage :=
  match interface.checkTypes target.emitter.languages with
  | .ok lookups => .ok ⟨target, lookups⟩
  | .error error =>
      .error ⟨"Type mappings incomplete for target '" ++ target.name ++ "'", .emit error⟩

end Coverage

/-- Checks an interface; yields the coverage of each target. -/
def Interface.check (interface : Interface) : Except Failure (List Coverage) := do
  interface.checkFlags.mapError fun error => ⟨"Flag resolution failed", .emit error⟩
  Target.all.mapM (Coverage.ofTarget interface)

end Bindery
