import Bindery.Checkout.Error
import Bindery.Text.Blank
import Bindery.Text.Utf8

/-!
# Formatters

A finisher transforms the whole text of a file after its blocks were replaced. A formatter is an
external program that does so for C and C++ files; it reads the text, writes the formatted one, and
runs in the file's folder so that it finds its settings there.
-/

namespace Bindery

open Text

/-- Transforms the text that is about to be written to a path. -/
abbrev Finisher := Path → String → Except FileError String

def Finisher.identity : Finisher := fun _ text => .ok text

namespace Formatter

/-- The formatter that is used when no other is named. -/
def defaultProgram : String := "clang-format"

/-- The extensions of the files that a formatter is run on. -/
def extensions : List String := ["h", "hpp", "c", "cc", "cpp"]

/-- Whether a formatter is run on the file at a path. -/
def appliesTo (path : Path) : Bool := path.hasExtension extensions

/-- How a program is started. -/
structure Invocation where
  program : String
  argument : String
  /-- the folder it runs in -/
  folder : Location
  /-- what it reads -/
  input : String
deriving DecidableEq, Repr

/-- How a program ended. -/
inductive Outcome where
  | notStarted (reason : String)
  | exited (success : Bool) (output errors : List UInt8)
deriving DecidableEq, Repr

/-- Starts programs. -/
abbrev Launcher := Invocation → Outcome

/-- The text a program wrote, or what is wrong. -/
def Outcome.text : Outcome → Except String String
  | .notStarted reason => .error reason
  | .exited false _ errors => .error (String.ofList (trim (decodeUtf8Lossy errors)))
  | .exited true output _ =>
      match decodeUtf8 output with
      | .ok text => .ok text
      | .error error => .error error.message

/-- How the program is started on the text of a file. -/
def invocation (program : String) (path : Path) (text : String) : Invocation :=
  { program
    argument := "--assume-filename=" ++ path.fileName?.getD ""
    folder := path.location.dropLast
    input := text }

/-- Runs a program over the C and C++ files of a checkout. -/
def finisher (launch : Launcher) (program : String) (checkout : Checkout) : Finisher :=
  fun path text =>
    if !appliesTo path then .ok text
    else
      let result : Except String String :=
        match checkout.obstacle? path.location.dropLast with
        | none => (launch (invocation program path text)).text
        | some failure => .error failure.message
      result.mapError (FileError.formatting path program)

end Formatter

end Bindery
