import Bindery.Text.Search

/-!
# Paths

A path is a text whose parts are separated by slashes. Two texts name the same path when they have
the same parts: repeated slashes, a trailing slash and inner dots do not count, a leading dot does.
-/

namespace Bindery

/-- A path as it was written. -/
structure Path where
  text : String
deriving DecidableEq, Repr, Inhabited

namespace Path

open Text

/-- One part of a path. -/
inductive Part where
  | root
  | here
  | up
  | name (text : String)
deriving DecidableEq, Repr

/-- The part that stands between two slashes, if it counts. -/
def Part.ofPiece? (piece : List Char) : Option Part :=
  if piece = [] || piece = ['.'] then none
  else if piece = ['.', '.'] then some .up
  else some (.name (String.ofList piece))

def parts (path : Path) : List Part :=
  match pieces (· = '/') path.text.toList with
  | [] => []
  | first :: others =>
      let start :=
        if first = [] then (if others = [] then [] else [Part.root])
        else if first = ['.'] then [Part.here]
        else (Part.ofPiece? first).toList
      start ++ others.filterMap Part.ofPiece?

def same (path other : Path) : Bool := path.parts = other.parts

/-- Whether nothing was written; such a path leads nowhere. -/
def isEmpty (path : Path) : Bool := path.text.isEmpty

/-- The path of `below`, which is relative to `base`. An absolute path stays what it is. -/
def join (base : Path) (below : String) : Path :=
  if below.toList.head? = some '/' then ⟨below⟩
  else if base.text.toList.getLast?.all (· = '/') then ⟨base.text ++ below⟩
  else ⟨base.text ++ "/" ++ below⟩

/-- The last part of a path, if it is a name. -/
def fileName? (path : Path) : Option String :=
  match path.parts.getLast? with
  | some (.name text) => some text
  | _ => none

/-- What follows the last dot of a file name, unless the dot is its first character. -/
def extension? (path : Path) : Option String := do
  let name ← path.fileName?
  let backwards := name.toList.reverse
  let ending := backwards.takeWhile (· ≠ '.')
  if ending.length + 1 < backwards.length then some (String.ofList ending.reverse) else none

/-- Whether the path's extension is one of those listed. -/
def hasExtension (extensions : List String) (path : Path) : Bool :=
  match path.extension? with
  | some ending => extensions.contains ending
  | none => false

def Part.text : Part → String
  | .root => ""
  | .here => "."
  | .up => ".."
  | .name text => text

/-- The path as it is written below `base`, or the path itself when it does not start there. -/
def relativeTo (base path : Path) : Path :=
  if base.parts.isPrefixOf path.parts then
    ⟨Text.join "/" ((path.parts.drop base.parts.length).map Part.text)⟩
  else path

end Path

end Bindery
