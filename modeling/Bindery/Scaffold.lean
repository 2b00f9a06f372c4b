import Bindery.Block
import Bindery.Checkout.Update
import Bindery.Edit
import Bindery.Target.Emitter

/-!
# Scaffolds

Files to start from: each has as many empty blocks as are called for, with a line of hand-written
text before each block and behind the last. The text of a block can be read back.
-/

namespace Bindery.Scaffold

open Text

/-- Why a scaffold was not written. -/
inductive Error where
  /-- the files to write could not be found out -/
  | emit (error : EmitError)
  /-- the folder of a file could not be made -/
  | folder (failure : AccessFailure)
  /-- the file could not be written -/
  | writing (path : Path) (failure : AccessFailure)
deriving DecidableEq, Repr

/-- The texts of the error, from what was being done to what the operating system says. -/
def Error.chain : Error → List String
  | .emit error => error.message :: (error.source?.map AccessFailure.message).toList
  | .folder failure => [failure.message]
  | .writing path failure => ["writing " ++ path.text, failure.message]

/-- The line of a file that holds a marker, as a comment of the file's language. -/
def markerLine (path : Path) (marker : List Char) : String :=
  let marker := String.ofList marker
  if path.hasExtension ["py", "txt"] then "# " ++ marker ++ "\n"
  else if path.hasExtension ["csproj"] then "<!-- " ++ marker ++ " -->\n"
  else "// " ++ marker ++ "\n"

/-- The hand-written line that precedes a block, and the empty block. -/
def emptyBlock (path : Path) (index : Nat) : String :=
  "hand-written " ++ toString index ++ "\n" ++ markerLine path beginMarker
    ++ markerLine path endMarker

/-- The text of a scaffold. One that has a copyright header starts with a comment. -/
def text (path : Path) (blocks : Nat) : String :=
  (if path.hasExtension ["h", "cc"] then "/*\n * placeholder\n */\n\n" else "")
    ++ join "" ((List.range blocks).map (emptyBlock path)) ++ "hand-written end\n"

/-- Writes the scaffold of a file below a root, with the folders it lies in; yields its path. -/
def writeFile (root : Path) (file : String) (blocks : Nat) : Work Error Path := do
  let path := root.join file
  match (← get).makeFolder path.location.dropLast with
  | .error failure => throw (.folder failure)
  | .ok checkout => set checkout
  match (← get).write path (text path blocks) with
  | .error failure => throw (.writing path failure)
  | .ok checkout => set checkout
  pure path

/-- How many blocks the file of an edit needs for all edits of it. -/
def blocksNeeded (edits : List Edit) (edit : Edit) : Nat :=
  ((edits.filter fun other => other.path.same edit.path).map fun other => other.block + 1).foldl
    max 0

/-- Whether there is a file or folder at a path. -/
def isTaken (checkout : Checkout) (path : Path) : Bool :=
  checkout.isFile path.location || checkout.isFolder path.location

/-- Writes a scaffold for each edit of which the file does not exist. -/
def writeEdits (root : Path) (all : List Edit) : List Edit → Work Error Unit
  | [] => pure ()
  | edit :: rest => do
      if isTaken (← get) (root.join edit.path.text) then pure ()
      else discard (writeFile root edit.path.text (blocksNeeded all edit))
      writeEdits root all rest

/-- Writes a scaffold for each file that an emitter renders and that does not exist. -/
def writeAll (root : Path) (emitter : Emitter) (interface : Interface) : Work Error Unit := do
  let edits ← Work.ofExcept ((emitter.emit interface ⟨← get, root⟩).mapError Error.emit)
  writeEdits root edits edits

end Bindery.Scaffold

namespace Bindery.Block

open Text

/-- Why the text of a block was not found. -/
inductive BodyError where
  /-- the file could not be read -/
  | unreadable (failure : AccessFailure)
  /-- the file has fewer blocks -/
  | notFound (path : Path) (index : Nat)
  /-- the block has no end -/
  | notClosed (path : Path) (index : Nat)
  /-- the end marker is on the line that opens the block, where the reading breaks off -/
  | noLines (path : Path) (index : Nat)
deriving DecidableEq, Repr

def BodyError.message : BodyError → String
  | .unreadable failure => failure.message
  | .notFound path index => "block " ++ toString index ++ " not found in " ++ path.text
  | .notClosed path index => "block " ++ toString index ++ " is not closed in " ++ path.text
  -- to break off comes with no text, so this one only tells it from the other errors
  | .noLines path index => "block " ++ toString index ++ " has no lines in " ++ path.text

def skipBlocks : Nat → List Char → Option (List Char)
  | 0, text => some text
  | count + 1, text =>
      match cutOut? endMarker text with
      | none => none
      | some (_, rest) => skipBlocks count rest

/-- The lines of a block, given the text from its begin marker up to its end marker, unless that is all
on one line. -/
def linesBetween? (covered : List Char) : Option (List Char) :=
  match covered.dropWhile (· ≠ '\n') with
  | [] => none
  | _ :: inner => some (splitLastLine inner).1

/-- The text of the block of a file that follows as many end markers as its index says. -/
def readBody (checkout : Checkout) (path : Path) (index : Nat) : Except BodyError String := do
  let text ← (checkout.read path).mapError BodyError.unreadable
  match (skipBlocks index text.toList).bind (cut? beginMarker) with
  | none => .error (.notFound path index)
  | some (_, marked) =>
      match cut? endMarker marked with
      | none => .error (.notClosed path index)
      | some (covered, _) =>
          match linesBetween? covered with
          | none => .error (.noLines path index)
          | some lines => .ok (String.ofList lines)

end Bindery.Block
