import Bindery.Checkout.Update
import Bindery.Edit
import Bindery.Failure
import Bindery.Header
import Bindery.Render.Values
import Bindery.Target.Emitter

/-!
# Generation

Brings the libraries of a checkout in step with an interface. All edits are rendered before the first
file is written, so nothing is written when one emitter fails. Then the emitters take their turns:
first the copyright headers in an emitter's folders are renewed, then its edits are applied file by
file. A failure in this second part stops the run and keeps what was written.
-/

namespace Bindery

/-- What became of a file with blocks. -/
structure FileReport where
  /-- the path below the root -/
  path : Path
  /-- the blocks that were replaced, in the order in which they were -/
  blocks : List Nat
  change : Change
deriving DecidableEq, Repr

/-- What became of the files of one library. -/
structure TargetReport where
  name : String
  /-- the files of which the copyright header changed, below the root -/
  headers : List Path
  files : List FileReport
deriving DecidableEq, Repr

/-- How many changes are reported for a library. -/
def TargetReport.changed (report : TargetReport) : Nat :=
  report.headers.length + report.files.countP (·.change = .written)

/-- What became of a whole run. -/
structure Generation where
  version : Version
  mode : Mode
  targets : List TargetReport
deriving DecidableEq, Repr

namespace Generation

-- the zero of a sum is that of the core library, whatever else is imported
attribute [local instance (2000)] Zero.ofOfNat0

/-- How many changes are reported for a run. -/
def changed (generation : Generation) : Nat :=
  (generation.targets.map TargetReport.changed).sum

/-- The extensions of the files that have a copyright header. -/
def headerExtensions : List String := ["h", "cc"]

/-- Renews the copyright headers in folders below the root; yields the files that changed. -/
def renewHeaders (root : Path) (copyright : String) (mode : Mode) :
    List String → Work FileError (List Path)
  | [] => pure []
  | folder :: rest => do
      let changed ← Header.renewFolder (root.join folder) copyright headerExtensions mode
      let others ← renewHeaders root copyright mode rest
      pure (changed.map (Path.relativeTo root) ++ others)

/-- Applies the edits of files, one file after the other. -/
def applyEdits (root : Path) (finish : Finisher) (mode : Mode) :
    List FileEdits → Work FileError (List FileReport)
  | [] => pure []
  | edits :: rest => do
      let change ← Work.applyBlocks (root.join edits.path.text) edits.blocks finish mode
      let reports ← applyEdits root finish mode rest
      pure (⟨edits.path, edits.blocks.map Prod.fst, change⟩ :: reports)

/-- Brings the files of one library up to date. -/
def applyTarget (interface : Interface) (root : Path) (finish : Finisher) (mode : Mode)
    (emitter : Emitter) (edits : List Edit) : Work FileError TargetReport := do
  let headers ← renewHeaders root interface.copyright mode emitter.headerFolders
  let files ← applyEdits root finish mode (FileEdits.ofEdits edits)
  pure ⟨emitter.name, headers, files⟩

/-- Brings the files of several libraries up to date, one library after the other. -/
def applyTargets (interface : Interface) (root : Path) (finish : Finisher) (mode : Mode) :
    List (Emitter × List Edit) → Work FileError (List TargetReport)
  | [] => pure []
  | (emitter, edits) :: rest => do
      let report ← applyTarget interface root finish mode emitter edits
      let reports ← applyTargets interface root finish mode rest
      pure (report :: reports)

/-- The emitters with the edits that an interface and the sources call for. The flag sets are checked
first; then the first emitter that fails decides. -/
def render (emitters : List Emitter) (interface : Interface) (sources : Sources) :
    Except EmitError (List (Emitter × List Edit)) := do
  interface.checkFlags
  emitters.mapM fun emitter => do return (emitter, ← emitter.emit interface sources)

/-- Renders and applies the edits of several emitters. -/
def run (emitters : List Emitter) (interface : Interface) (root : Path) (finish : Finisher)
    (mode : Mode) : Work RunError (List TargetReport) := do
  let rendered ← Work.ofExcept ((render emitters interface ⟨← get, root⟩).mapError RunError.emit)
  (applyTargets interface root finish mode rendered).adaptExcept RunError.file

end Generation

/-- Brings the libraries that several emitters maintain in step with an interface. -/
def generate (emitters : List Emitter) (interface : Interface) (root : Path) (finish : Finisher)
    (mode : Mode) : Work Failure Generation := do
  let targets ← (Generation.run emitters interface root finish mode).adaptExcept
    (Failure.mk "Failed to generate code")
  pure ⟨interface.version, mode, targets⟩

end Bindery
