import Bindery.Edit
import Bindery.Interface.Basic
import Bindery.Render.Schemas
import Bindery.Render.Error

/-!
# Emitters

An emitter renders what an interface and the sources of a checkout call for as edits of the files of
one library. It only reads; the edits are applied later. Most of its files are sheets: files of which
all blocks are rendered.
-/

namespace Bindery

/-- What an emitter reads: a checkout, seen from the folder that holds the libraries. -/
structure Sources where
  checkout : Checkout
  root : Path

namespace Sources

/-- The text of a file below the root. -/
def read (sources : Sources) (file : String) : Except EmitError String :=
  let path := sources.root.join file
  (sources.checkout.read path).mapError (.unreadable path)

/-- The names of the files directly in a folder below the root that have an ending, in order. -/
def fileNames (sources : Sources) (folder ending : String) : Except EmitError (List String) :=
  let path := sources.root.join folder
  match sources.checkout.folderAt path with
  | .error failure => .error (.unreadable path failure)
  | .ok location =>
      .ok (((sources.checkout.fileNames location).filter fun name =>
        ending.toList.isSuffixOf name.toList).mergeSort (· ≤ ·))

/-- Whether there is a folder below the root. -/
def hasFolder (sources : Sources) (folder : String) : Bool :=
  match sources.checkout.folderAt (sources.root.join folder) with
  | .ok _ => true
  | .error _ => false

/-- The files with an ending in a folder below the root, with their texts. A folder that does not
exist holds none. -/
def readFiles (sources : Sources) (folder ending : String) :
    Except EmitError (List (String × String)) := do
  if sources.hasFolder folder then
    (← sources.fileNames folder ending).mapM fun name => do
      return (name, ← sources.read (folder ++ "/" ++ name))
  else return []

end Sources

/-- A file with the lines of its blocks. -/
structure Sheet where
  path : String
  blocks : Except EmitError (List (List String))
  /-- the index of the first of these blocks in the file -/
  first : Nat

namespace Sheet

/-- The sheet with all blocks of a file. -/
def ofBlocks (path : String) (blocks : Except EmitError (List (List String))) : Sheet :=
  ⟨path, blocks, 0⟩

/-- The sheet of a file with one block. -/
def single (path : String) (lines : List String) : Sheet := ofBlocks path (.ok [lines])

/-- The edits that write the blocks of a sheet. -/
def edits (sheet : Sheet) : Except EmitError (List Edit) := do
  return (← sheet.blocks).zipIdx sheet.first |>.map fun (lines, block) =>
    { path := ⟨sheet.path⟩, block, lines }

/-- The edits of several sheets, in order; the first sheet that cannot be rendered decides. -/
def allEdits (sheets : List Sheet) : Except EmitError (List Edit) := do
  return (← sheets.mapM edits).flatten

end Sheet

/-- What brings the files of one library up to date. -/
structure Emitter where
  name : String
  description : String
  /-- the files it owns, below the root -/
  files : List String
  /-- the folders in which it maintains copyright headers, below the root -/
  headerFolders : List String
  /-- the languages in which it needs the names of types -/
  languages : List Language
  /-- the edits that an interface and the sources call for -/
  emit : Interface → Sources → Except EmitError (List Edit)

end Bindery
