import Bindery.Checkout.Update

/-!
# Copyright headers

The comment at the start of a C or C++ file holds a copyright text. Renewing a header replaces that
comment and keeps all that follows; renewing a folder does so for every file below it that has one
of the given extensions, in the order of their locations.
-/

namespace Bindery.Header

open Text

def opening : List Char := "/*".toList

def closing : List Char := "*/".toList

def commentLine (line : List Char) : List Char := trimEnd (" * ".toList ++ line) ++ ['\n']

/-- The comment that holds a text, up to the mark that ends it. -/
def comment (text : String) : String :=
  String.ofList
    (opening ++ ['\n'] ++ (lines (trim text.toList)).flatMap commentLine ++ [' '])

/-- The text of a file with a new comment at its start, in place of the old one. -/
def renew? (header content : String) : Option String :=
  if opening.isPrefixOf content.toList then
    (cut? closing content.toList).map fun parts => header ++ String.ofList parts.2
  else none

-- locations are ordered as lists and texts of the core library are, whatever else is imported
attribute [local instance (2000)] List.instLE List.decidableLE String.instLT String.decidableLT

/-- Whether a location comes before another: the names decide from the left, and a location comes
before those below it. -/
def before (location other : Location) : Bool := location ≤ other

/-- The paths of the files below a folder with one of the extensions, in order. -/
def filesBelow (checkout : Checkout) (folder : Path) (location : Location)
    (extensions : List String) : List Path :=
  (((checkout.below location).mergeSort before).map fun file =>
      folder.join (join "/" file)).filter (Path.hasExtension extensions)

/-- Renews the header of one file and says whether it changed. -/
def renewFile (header : String) (mode : Mode) (path : Path) : Work FileError Change := do
  let content ← Work.readFile path
  match renew? header content with
  | some new => Work.writeIfChanged path content new mode
  | none => throw (.noHeader path)

/-- Renews the headers of files one after the other; yields those that changed. -/
def renewFiles (header : String) (mode : Mode) : List Path → Work FileError (List Path)
  | [] => pure []
  | path :: rest => do
      let change ← renewFile header mode path
      let changed ← renewFiles header mode rest
      pure (if change = .written then path :: changed else changed)

/-- Renews the headers of the files below a folder; yields those that changed. -/
def renewFolder (folder : Path) (text : String) (extensions : List String) (mode : Mode) :
    Work FileError (List Path) := do
  let checkout ← get
  match checkout.folderAt folder with
  | .error failure => throw (.access folder failure)
  | .ok location =>
      renewFiles (comment text) mode (filesBelow checkout folder location extensions)

end Bindery.Header
