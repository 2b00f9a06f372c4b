import Bindery.Coverage
import Bindery.Generation

/-!
# Reports

What a run tells its user, as a list of lines by their role, and how such lines look on a terminal.
-/

namespace Bindery

/-- A line of a report by its role. -/
inductive Report.Line where
  /-- starts a section -/
  | heading (name : String)
  | entry (key value : String)
  | item (text : String)
  /-- names something that was written -/
  | added (text : String)
  /-- names something that was up to date -/
  | unchanged (text : String)
  /-- names something that would be written in a run that is not dry -/
  | pending (text : String)
  | plain (text : String)
  | blank
deriving DecidableEq, Repr

/-- What a run tells its user. -/
abbrev Report := List Report.Line

def Report.Line.text : Report.Line → String
  | .heading name => name ++ ":"
  | .entry key value => "  " ++ key ++ ": " ++ value
  | .item text => "  - " ++ text
  | .added text => "  + " ++ text
  | .unchanged text => "  = " ++ text
  | .pending text => "  ~ " ++ text
  | .plain text => text
  | .blank => ""

def Report.text (report : Report) : String :=
  Text.join "" (report.map fun line => line.text ++ "\n")

def Target.report : Report :=
  let lines (target : Target) : Report :=
    .heading (target.name ++ " - " ++ target.emitter.description)
      :: target.emitter.files.map Report.Line.item
  List.intercalate [.blank] (Target.all.map lines)

/-- What was found in a valid interface that was read from a file. -/
def Coverage.report (interface : Interface) (file : Path) (coverage : List Coverage) : Report :=
  [ .plain ("✓ " ++ file.text ++ " is valid"),
    .blank,
    .heading "Interface",
    .entry "Version" interface.version.text,
    .entry "Functions" (toString interface.functions.length),
    .entry "Constants" (toString interface.constants.length),
    .entry "Enums" (toString interface.enumerations.length),
    .entry "Flag sets" (toString interface.flagSets.length),
    .blank,
    .heading "Type mappings" ]
    ++ coverage.map fun one =>
      .item (one.target.name ++ " (" ++ toString one.lookups ++ " lookups)")

/-- The blocks of a file that were replaced, in the order in which they stand. -/
def FileReport.label (report : FileReport) : String :=
  let list := Text.join ", " ((report.blocks.mergeSort (· ≤ ·)).map toString)
  if report.blocks.length = 1 then "[block " ++ list ++ "]" else "[blocks " ++ list ++ "]"

def FileReport.line (mode : Mode) (report : FileReport) : Report.Line :=
  match report.change, mode with
  | .unchanged, _ => .unchanged report.path.text
  | .written, .dryRun => .pending report.path.text
  | .written, .write => .added (report.path.text ++ " " ++ report.label)

/-- What became of a file with a copyright header that changed. -/
def TargetReport.headerLine (mode : Mode) (path : Path) : Report.Line :=
  let text := path.text ++ " [copyright]"
  match mode with
  | .dryRun => .pending text
  | .write => .added text

/-- What became of the files of one library. -/
def TargetReport.lines (mode : Mode) (report : TargetReport) : Report :=
  .heading report.name :: report.headers.map (headerLine mode)
    ++ report.files.map (FileReport.line mode)

def Generation.summary (generation : Generation) : String :=
  toString generation.changed ++ (if generation.changed = 1 then " file" else " files")
    ++ (match generation.mode with
      | .dryRun => " would change"
      | .write => " updated")
    ++ " (v" ++ generation.version.text ++ ")"

def Generation.report (generation : Generation) : Report :=
  generation.targets.flatMap (TargetReport.lines generation.mode)
    ++ [.blank, .plain generation.summary]

end Bindery
