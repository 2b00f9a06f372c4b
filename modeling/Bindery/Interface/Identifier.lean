/-!
# Identifiers

Which names may become identifiers of the generated code: those of C, in ASCII, that are no keywords.
-/

namespace Bindery.Identifier

/-- What keeps a name from being an identifier. -/
inductive Fault where
  | empty
  | badStart
  | badCharacter
  | keyword
deriving DecidableEq, Repr

def Fault.message : Fault → String
  | .empty => "name cannot be empty"
  | .badStart => "name must start with a letter or underscore"
  | .badCharacter => "name must contain only letters, numbers, and underscores"
  | .keyword => "name is a C keyword"

/-- Names that have a meaning of their own in C. -/
def keywords : List String :=
  ["auto", "break", "case", "char", "const", "continue", "default", "do", "double", "else",
    "enum", "extern", "float", "for", "goto", "if", "inline", "int", "long", "register",
    "restrict", "return", "short", "signed", "sizeof", "static", "struct", "switch", "typedef",
    "union", "unsigned", "void", "volatile", "while", "_Bool", "_Complex", "_Imaginary"]

/-- Whether an identifier may start with a character. -/
def isStart (c : Char) : Bool := c.isAlpha || c = '_'

/-- Whether a character may stand in an identifier. -/
def isPart (c : Char) : Bool := c.isAlphanum || c = '_'

/-- What is wrong with a name, if anything. -/
def fault? (name : String) : Option Fault :=
  match name.toList with
  | [] => some .empty
  | first :: rest =>
      if !isStart first then some .badStart
      else if !rest.all isPart then some .badCharacter
      else if keywords.contains name then some .keyword
      else none

/-- Whether a text is spelled like an identifier: one character that may start it, and others that
may stand in it. -/
def isSpelled : List Char → Bool
  | [] => false
  | first :: rest => isStart first && rest.all isPart

/-- The names without fault are those spelled like an identifier that are no keywords. -/
theorem fault?_eq_none_iff (name : String) :
    fault? name = none ↔ isSpelled name.toList = true ∧ name ∉ keywords := by
  cases hname : name.toList with
  | nil => simp [fault?, isSpelled, hname]
  | cons first rest =>
      simp only [fault?, isSpelled, hname]
      generalize isStart first = start
      generalize rest.all isPart = parts
      cases start <;> cases parts <;> simp

end Bindery.Identifier
