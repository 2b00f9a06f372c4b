import Bindery.Command.Run

/-!
# The program

Reads the files that a command needs, carries the command out, and writes the files that changed. No
other program is started from here, so files that are to be formatted are not written.
-/

namespace Bindery

/-- The checkout with what is found on disk at a path. -/
partial def load (checkout : Checkout) (path : Path) : IO Checkout := do
  let file := System.mkFilePath [path.text]
  if ← file.isDir then
    let entries := (← file.readDir).toList
    entries.foldlM (fun checkout entry => load checkout (path.join entry.fileName))
      (checkout.addFolder path.location)
  else if ← file.pathExists then
    let bytes ← IO.FS.readBinFile file
    return checkout.set path.location (.ofBytes bytes.toList)
  else return checkout

/-- Writes the texts that differ from those of another checkout. -/
def store (before after : Checkout) : IO Unit :=
  after.files.forM fun (location, content) =>
    match content with
    | .text text => do
        if before.content? location ≠ some content then
          IO.FS.writeFile (System.mkFilePath [location.path.text]) text
    | .binary _ => pure ()

/-- Carries out a command on the files on disk. -/
def carryOut (command : Command) : IO UInt32 := do
  let before ← command.reads.foldlM load .empty
  let (ending, after) := command.run (fun _ => .notStarted "no formatter can be started") before
  store before after
  match ending with
  | .completed output => IO.print output
  | _ => IO.eprint (Text.join "\n" ending.complaint ++ "\n")
  return ending.exitCode

/-- Tells the user why no command is carried out. -/
def turnDown (refusal : Options.Refusal) : IO UInt32 := do
  match refusal with
  | .help => IO.print Command.usage
  | .version => IO.print Command.programVersion
  | _ => IO.eprint (refusal.message ++ "\n\n" ++ Command.usage)
  return refusal.exitCode

end Bindery

def main (arguments : List String) : IO UInt32 :=
  match Bindery.Command.read arguments with
  | .ok command => Bindery.carryOut command
  | .error refusal => Bindery.turnDown refusal
