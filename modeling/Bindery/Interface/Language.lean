/-!
# Languages and types

The languages that an interface is projected into, and the names that a type has in each of them.
A type of the description is a canonical token, which a map leads to these names.
-/

namespace Bindery

/-- A language that types are mapped to. -/
inductive Language where
  | c
  | cpp
  | csharp
  | python
deriving DecidableEq, Repr

namespace Language

def all : List Language := [.c, .cpp, .csharp, .python]

/-- The key of a language in a description. -/
def key : Language → String
  | .c => "c"
  | .cpp => "cpp"
  | .csharp => "cs"
  | .python => "py"

end Language

/-- The names of a type, or of a constant's type, as far as the description gives them. -/
structure TypeNames where
  c? : Option String
  cpp? : Option String
  csharp? : Option String
  python? : Option String
deriving DecidableEq, Repr, Inhabited

/-- The name of a type in one language. -/
def TypeNames.get? (names : TypeNames) : Language → Option String
  | .c => names.c?
  | .cpp => names.cpp?
  | .csharp => names.csharp?
  | .python => names.python?

/-- The canonical types of a description with their names, in the order of the document. -/
abbrev TypeMap := List (String × TypeNames)

end Bindery
