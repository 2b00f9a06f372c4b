import Bindery.Checkout.Update
import Bindery.Command.Options
import Bindery.Formatter
import Bindery.Interface.Load
import Bindery.Target

/-!
# Commands

What a user can ask for on the command line: to bring targets up to date, to check a description, to
list the targets, or to get a script that completes commands in a shell.
-/

namespace Bindery

open Options

/-- A shell that can complete commands. -/
inductive Shell where
  | bash
  | elvish
  | fish
  | powershell
  | zsh
deriving DecidableEq, Repr

namespace Shell

def all : List Shell := [bash, elvish, fish, powershell, zsh]

def name : Shell → String
  | bash => "bash"
  | elvish => "elvish"
  | fish => "fish"
  | powershell => "powershell"
  | zsh => "zsh"

def ofName? (name : String) : Option Shell := all.find? fun shell => shell.name = name

end Shell

/-- What is to be brought up to date, and how. -/
structure Request where
  /-- the targets that were named; none stands for all -/
  targets : List Target
  schema : Path
  root : Path
  mode : Mode
  /-- the formatter of C and C++ files, unless they are not to be formatted -/
  formatter? : Option String
deriving DecidableEq, Repr

/-- What a user asks for. -/
inductive Command where
  | generate (request : Request)
  | check (schema : Path)
  | list
  | completions (shell : Shell)
deriving DecidableEq, Repr

namespace Command

def isPath (text : String) : Bool := !text.isEmpty

def helpRule : Rule := ⟨"help", some 'h', .help⟩

/-- The option that names the file with the description. -/
def schemaRule : Rule := ⟨"schema", some 's', .value isPath⟩

/-- The option that names the folder that holds the libraries. -/
def rootRule : Rule := ⟨"root", some 'r', .value isPath⟩

/-- The option that keeps files from being written. -/
def dryRunRule : Rule := ⟨"dry-run", none, .switch⟩

/-- The option that keeps files from being formatted. -/
def noFormatRule : Rule := ⟨"no-format", none, .switch⟩

def formatterRule : Rule := ⟨"clang-format", none, .value fun _ => true⟩

def schemaOf (reading : Reading) : Path :=
  ⟨(reading.value? schemaRule.name).getD defaultFile⟩

def readGenerate (arguments : List String) : Except Refusal Command := do
  let grammar : Grammar :=
    { options := [schemaRule, rootRule, dryRunRule, noFormatRule, formatterRule, helpRule]
      operand? := some ⟨fun name => (Target.ofName? name).isSome, true, false⟩ }
  let reading ← grammar.read arguments
  let isSet (rule : Rule) : Bool := reading.switches.contains rule.name
  let formatter := (reading.value? formatterRule.name).getD Formatter.defaultProgram
  return .generate
    { targets := reading.operands.filterMap Target.ofName?
      schema := schemaOf reading
      root := ⟨(reading.value? rootRule.name).getD "."⟩
      mode := if isSet dryRunRule then .dryRun else .write
      formatter? := if isSet noFormatRule then none else some formatter }

def readCheck (arguments : List String) : Except Refusal Command := do
  return .check (schemaOf (← Grammar.read ⟨[schemaRule, helpRule], none⟩ arguments))

def readList (arguments : List String) : Except Refusal Command := do
  discard (Grammar.read ⟨[helpRule], none⟩ arguments)
  return .list

/-- A command for a completion script, from its arguments. -/
def readCompletions (arguments : List String) : Except Refusal Command := do
  let operand : OperandRule := ⟨fun name => (Shell.ofName? name).isSome, false, true⟩
  let reading ← Grammar.read ⟨[helpRule], some operand⟩ arguments
  match reading.operands.filterMap Shell.ofName? with
  | shell :: _ => return .completions shell
  | [] => throw .missingOperand

/-- The names of the commands, with how their arguments are read. -/
def readers : List (String × (List String → Except Refusal Command)) :=
  [("generate", readGenerate), ("check", readCheck), ("list", readList),
    ("completions", readCompletions)]

def helpName : String := "help"

def names : List String := readers.map Prod.fst ++ [helpName]

/-- Why a request to explain a command is not carried out as a command. -/
def explain : List String → Refusal
  | [] => .help
  | [name] => if names.contains name then .help else .unknownCommand
  | _ => .unknownCommand

def programOptions : Grammar := ⟨[helpRule, ⟨"version", some 'V', .version⟩], none⟩

/-- The refusal of an argument that stands where a command is expected. -/
def refuse (argument : String) : Refusal :=
  match argument.toList with
  | '-' :: _ :: _ =>
      match programOptions.read [argument] with
      | .error refusal => refusal
      | .ok _ => .unknownCommand
  | _ => .unknownCommand

/-- The command that the arguments of the program ask for. A double dash may precede the command only
when nothing follows. -/
def read : List String → Except Refusal Command
  | [] | ["--"] => .error .missingCommand
  | "--" :: name :: _ =>
      .error (if names.contains name then .unknownArgument else .unknownCommand)
  | name :: arguments =>
      match readers.lookup name with
      | some reader => reader arguments
      | none => .error (if name = helpName then explain arguments else refuse name)

/-- The files and folders that a command reads. -/
def reads : Command → List Path
  | .generate request =>
      request.schema :: (Target.select request.targets).flatMap fun target =>
        (target.emitter.headerFolders ++ target.emitter.files).map request.root.join
  | .check schema => [schema]
  | .list | .completions _ => []

def usage : String :=
  Text.join "\n"
    [ "Keeps the bindings of a C interface in step with its description.",
      "",
      "bindery generate [TARGET]... [OPTIONS]  bring targets up to date, all if none is named",
      "bindery check [-s FILE]                 check a description without touching any file",
      "bindery list                            list targets and the files they own",
      "bindery completions SHELL               print a completion script",
      "bindery help [COMMAND]                  print this text",
      "",
      "  -s, --schema FILE     the description (core_api.toml)",
      "  -r, --root FOLDER     the folder that holds the libraries (.)",
      "  --dry-run             report what would change without writing files",
      "  --no-format           do not format C and C++ files",
      "  --clang-format NAME   the formatter of C and C++ files (clang-format)",
      "" ]

def programVersion : String := "bindery 0.1.0\n"

end Command

end Bindery
