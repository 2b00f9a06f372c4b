import Bindery.Interface.Error
import Bindery.Text.Search

/-!
# Places in a description

A place is a spot in the text of a description that belongs to some section of it. A name is searched
from there on, so that a name that occurs in several sections is found in the right one.
-/

namespace Bindery

open Text

-- the zero of a sum is that of the core library, whatever else is imported
attribute [local instance (2000)] Zero.ofOfNat0

def utf8Length (text : List Char) : Nat := (text.map Char.utf8Size).sum

/-- The forms in which a name appears as a header or key, each with the number of characters before
the name. -/
def namePatterns (name : List Char) : List (List Char × Nat) :=
  [ (['.'] ++ name ++ [']'], 1),
    (['.'] ++ name ++ ['.'], 1),
    (['\n'] ++ name ++ " =".toList, 1),
    (['"'] ++ name ++ "\" =".toList, 1),
    ("\x7b ".toList ++ name ++ " =".toList, 2),
    (", ".toList ++ name ++ " =".toList, 2),
    (['['] ++ name ++ [']'], 1) ]

/-- Where a name stands in a text: at the leftmost of the first occurrences as header or key, or else
at its first occurrence. -/
def namePosition? (name text : List Char) : Option Nat :=
  let found := (namePatterns name).filterMap fun (pattern, lead) =>
    (position? pattern text).map (· + lead)
  match found.min? with
  | some position => some position
  | none => position? name text

/-- A spot in a description, and the section that it belongs to. -/
structure Place where
  /-- the name of the description -/
  file : String
  /-- the keys that lead to the section -/
  path : List String
  /-- the number of bytes before the spot -/
  offset : Nat
  /-- the text from the spot on -/
  text : List Char

namespace Place

def start (file source : String) : Place := ⟨file, [], 0, source.toList⟩

/-- How many characters behind the place a name stands. -/
def position? (place : Place) (name : String) : Option Nat :=
  namePosition? name.toList place.text

/-- The place of the section that a key leads to: where its name stands, if it is found. -/
def enter (place : Place) (key : String) : Place :=
  let skipped := (place.position? key).getD 0
  { place with
    path := place.path ++ [key]
    offset := place.offset + utf8Length (place.text.take skipped)
    text := place.text.drop skipped }

def span? (place : Place) (name : String) : Option Span :=
  (place.position? name).map fun skipped =>
    ⟨place.offset + utf8Length (place.text.take skipped), name.utf8ByteSize⟩

/-- The keys of the section with dots between them. -/
def pathText (place : Place) : String := join "." place.path

/-- What kind of name is meant, and in which section. -/
def describe (place : Place) (kind : String) : String :=
  if place.path.isEmpty then kind else kind ++ " in '" ++ place.pathText ++ "'"

def invalid (place : Place) (name : String) (problem : Problem) : LoadError :=
  .invalid place.file (place.span? name) problem

def checkName (place : Place) (name kind : String) : Except LoadError Unit :=
  match Identifier.fault? name with
  | none => .ok ()
  | some fault => .error (.invalidName place.file (place.span? name) name (place.describe kind) fault)

end Place

end Bindery
