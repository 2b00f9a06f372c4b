/-!
# Functions

A function of an interface and its arguments. An argument is a value of a canonical type, or a
callback, which has a signature of its own and goes by the argument's name.
-/

namespace Bindery

/-- An argument of a function. -/
inductive Argument where
  /-- a value of a canonical type -/
  | scalar (name type : String)
  /-- a pointer to a function -/
  | callback (name returnType : String) (args : List Argument)
deriving Repr, Inhabited

/-- A function, or the signature of a callback. -/
structure Function where
  name : String
  returnType : String
  args : List Argument
deriving Repr, Inhabited

def Argument.name : Argument → String
  | .scalar name _ => name
  | .callback name _ _ => name

mutual

def Argument.canonicalTypes : Argument → List String
  | .scalar _ type => [type]
  | .callback _ returnType args => returnType :: Argument.listTypes args

/-- The canonical types that arguments use, in order. -/
def Argument.listTypes : List Argument → List String
  | [] => []
  | arg :: rest => arg.canonicalTypes ++ Argument.listTypes rest

end

/-- The canonical types that a function uses, its callbacks included: the type it returns, then those
of its arguments in order. -/
def Function.canonicalTypes (function : Function) : List String :=
  function.returnType :: Argument.listTypes function.args

end Bindery
