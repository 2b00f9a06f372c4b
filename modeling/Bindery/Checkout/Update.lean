import Bindery.Block
import Bindery.Formatter

/-!
# Bringing files up to date

Work on a checkout: a computation that reads and changes it, and keeps the changes it has made when
it fails. A file is written only when its text changes, and in a dry run not at all.
-/

namespace Bindery

/-- A computation on a checkout. What it has written stays written when it fails. -/
abbrev Work (ε α : Type) := EStateM ε Checkout α

/-- Whether changed files are written. -/
inductive Mode where
  | write
  | dryRun
deriving DecidableEq, Repr

/-- What became of a file. -/
inductive Change where
  /-- its text changed, and was written unless the run is a dry one -/
  | written
  /-- its text was up to date -/
  | unchanged
deriving DecidableEq, Repr

namespace Work

def readFile (path : Path) : Work FileError String := do
  match (← get).read path with
  | .ok text => pure text
  | .error failure => throw (.access path failure)

def writeFile (path : Path) (text : String) : Work FileError Unit := do
  match (← get).write path text with
  | .ok checkout => set checkout
  | .error failure => throw (.access path failure)

/-- Writes the new text of a file unless it is the current one. -/
def writeIfChanged (path : Path) (current new : String) (mode : Mode) : Work FileError Change :=
  if current = new then pure .unchanged
  else
    match mode with
    | .write => do
        writeFile path new
        pure .written
    | .dryRun => pure .written

/-- The text of a file after its blocks were replaced and the finisher was run. -/
def finished (finish : Finisher) (path : Path) (blocks : List (Nat × List String))
    (current : String) : Except FileError String := do
  finish path (← Block.spliceAll path current blocks)

def ofExcept {ε α : Type} : Except ε α → Work ε α
  | .ok value => pure value
  | .error error => throw error

/-- Replaces several blocks of one file in the given order, and writes the file once. -/
def applyBlocks (path : Path) (blocks : List (Nat × List String)) (finish : Finisher)
    (mode : Mode) : Work FileError Change := do
  let current ← readFile path
  let new ← ofExcept (finished finish path blocks current)
  writeIfChanged path current new mode

def replaceBlock (path : Path) (lines : List String) (index : Nat) (finish : Finisher) :
    Work FileError Change :=
  applyBlocks path [(index, lines)] finish .write

end Work

end Bindery
