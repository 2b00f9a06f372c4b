import Bindery.Command.Basic
import Bindery.Generation
import Bindery.Report

/-!
# Running commands

What a command does to a checkout, and how it ends.
-/

namespace Bindery

/-- How a command ended. -/
inductive Ending where
  /-- it was carried out and printed a text -/
  | completed (output : String)
  /-- the description could not be loaded -/
  | unloadable (error : LoadError)
  /-- it was given up -/
  | stopped (failure : Failure)

def Ending.exitCode : Ending → UInt32
  | .completed _ => 0
  | .unloadable _ | .stopped _ => 1

/-- What is told to the user of a command that was not carried out. -/
def Ending.complaint : Ending → List String
  | .completed _ => []
  | .unloadable error => error.message :: (error.source?.map AccessFailure.message).toList
  | .stopped failure => failure.chain

/-- The finisher that runs a formatter, or none. -/
def Finisher.ofFormatter? (launch : Formatter.Launcher) (checkout : Checkout) :
    Option String → Finisher
  | none => Finisher.identity
  | some program => Formatter.finisher launch program checkout

/-- Brings the requested targets of a checkout in step with an interface. -/
def Request.run (launch : Formatter.Launcher) (interface : Interface) (request : Request) :
    Work Failure Generation := do
  let emitters := (Target.select request.targets).map Target.emitter
  let finish := Finisher.ofFormatter? launch (← get) request.formatter?
  generate emitters interface request.root finish request.mode

namespace Command

/-- The script that completes the names of commands in a shell. -/
def completionScript (shell : Shell) : String :=
  let words := Text.join " " names
  match shell with
  | .bash => "complete -W \"" ++ words ++ "\" bindery\n"
  | .elvish =>
      "set edit:completion:arg-completer[bindery] = \x7b|@args| put " ++ words ++ " \x7d\n"
  | .fish => "complete -c bindery -n __fish_use_subcommand -f -a \"" ++ words ++ "\"\n"
  | .powershell =>
      "Register-ArgumentCompleter -Native -CommandName bindery -ScriptBlock \x7b -split \""
        ++ words ++ "\" \x7d\n"
  | .zsh => "#compdef bindery\n_arguments \"1:command:(" ++ words ++ ")\"\n"

def run (launch : Formatter.Launcher) (command : Command) (checkout : Checkout) :
    Ending × Checkout :=
  match command with
  | .list => (.completed Target.report.text, checkout)
  | .completions shell => (.completed (completionScript shell), checkout)
  | .check schema =>
      match Interface.loadFile checkout schema with
      | .error error => (.unloadable error, checkout)
      | .ok interface =>
          match interface.check with
          | .error failure => (.stopped failure, checkout)
          | .ok coverage =>
              (.completed (Coverage.report interface schema coverage).text, checkout)
  | .generate request =>
      match Interface.loadFile checkout request.schema with
      | .error error => (.unloadable error, checkout)
      | .ok interface =>
          match (request.run launch interface).run checkout with
          | .ok generation after => (.completed generation.report.text, after)
          | .error failure after => (.stopped failure, after)

end Command

end Bindery
