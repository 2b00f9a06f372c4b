import Bindery.Interface.Basic
import Bindery.Render.Error

/-!
# Looking up types

The name of a canonical type, or of a constant's type, in a language; and the check that none is
missing.
-/

namespace Bindery

/-- The name of a canonical type in a language. -/
def TypeMap.nameOf (types : TypeMap) (type : String) (language : Language) :
    Except EmitError String :=
  match (types.lookup type).bind (·.get? language) with
  | some name => .ok name
  | none => .error (.unmapped type language)

/-- The name of a constant's type in a language. -/
def Constant.typeIn (constant : Constant) (language : Language) : Except EmitError String :=
  match constant.types.get? language with
  | some name => .ok name
  | none => .error (.unmapped ("constant " ++ constant.name) language)

mutual

/-- The types that were gathered, and behind them those of an argument. -/
def Argument.gatherTypes (gathered : List String) : Argument → List String
  | .scalar _ type => gathered ++ [type]
  | .callback _ returnType args => Argument.gatherAll (gathered ++ [returnType]) args

/-- The types that were gathered, and behind them those of arguments. -/
def Argument.gatherAll (gathered : List String) : List Argument → List String
  | [] => gathered
  | arg :: rest => Argument.gatherAll (arg.gatherTypes gathered) rest

end

/-- The types that were gathered, and behind them those to look up for a function. -/
def Function.gatherTypes (gathered : List String) (function : Function) : List String :=
  Argument.gatherAll (gathered ++ [function.returnType]) function.args

/-- Looks up every type of the functions, and that of every constant, in one language; yields the
number of lookups. -/
def Interface.countTypes (interface : Interface) (language : Language) : Except EmitError Nat := do
  let types := interface.functions.foldl Function.gatherTypes []
  types.forM fun type => discard (interface.types.nameOf type language)
  interface.constants.forM fun constant => discard (constant.typeIn language)
  return types.length + interface.constants.length

/-- Looks up every type in each of several languages; yields the number of lookups. -/
def Interface.checkTypes (interface : Interface) :
    List Language → Except EmitError Nat
  | [] => .ok 0
  | language :: rest => do
      return (← interface.countTypes language) + (← checkTypes interface rest)

end Bindery
