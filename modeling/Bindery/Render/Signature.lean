import Bindery.Naming
import Bindery.Render.Types
import Bindery.Text.Search

/-!
# Signatures

How the signature of a function is written in C, in Python's ctypes and in C#. Callbacks are written
by the same rules, to any depth: within the parameters in C and Python, and as a delegate type of
their own, declared before its use, in C#.
-/

namespace Bindery

open Text Naming

/-- The names of a function's arguments, as they are passed on. -/
def Function.passedArguments (function : Function) : String :=
  join ", " (function.args.map Argument.name)

/-! ## C -/

namespace Signature

def declaration (returnType declarator : String) (parameters : List String) : String :=
  returnType ++ " " ++ declarator ++ "(" ++ join ", " parameters ++ ")"

mutual

def cParameter (types : TypeMap) : Argument → Except EmitError String
  | .scalar name type => do return (← types.nameOf type .c) ++ " " ++ name
  | .callback name returnType args => do
      let returnType ← types.nameOf returnType .c
      let parameters ← cParameters types args
      return declaration returnType ("(*" ++ name ++ ")") parameters

def cParameters (types : TypeMap) : List Argument → Except EmitError (List String)
  | [] => .ok []
  | arg :: rest => do
      let parameter ← cParameter types arg
      return parameter :: (← cParameters types rest)

end

/-- The declaration of a function in C. The declarator stands where the name does. -/
def c (types : TypeMap) (function : Function) (declarator : String) : Except EmitError String := do
  let returnType ← types.nameOf function.returnType .c
  let parameters ← cParameters types function.args
  return declaration returnType declarator parameters

/-! ## Python -/

def ctype (types : TypeMap) (type : String) : Except EmitError String :=
  if type = "void" then .ok "None" else types.nameOf type .python

def prototype (returnType : String) (args : List String) : String :=
  "CFUNCTYPE(" ++ join ", " (returnType :: args) ++ ")"

mutual

def ctypesArgument (types : TypeMap) : Argument → Except EmitError String
  | .scalar _ type => ctype types type
  | .callback _ returnType args => do
      let returnType ← ctype types returnType
      return prototype returnType (← ctypesArguments types args)

def ctypesArguments (types : TypeMap) : List Argument → Except EmitError (List String)
  | [] => .ok []
  | arg :: rest => do
      let type ← ctypesArgument types arg
      return type :: (← ctypesArguments types rest)

end

def ctypes (types : TypeMap) (function : Function) : Except EmitError String := do
  let returnType ← ctype types function.returnType
  return prototype returnType (← ctypesArguments types function.args)

/-! ## C# -/

/-- Arguments that point to plain data, not to an object. -/
def rawPointers : List String := ["userarg", "sigarg", "uuid", "data"]

def delegateAttribute : String := "        [UnmanagedFunctionPointer(CallingConvention.Cdecl)]"

/-- The name of the delegate type of a function or callback. -/
def delegateName (owner : String) : String := bareName owner ++ "Delegate"

def csharpReturn (types : TypeMap) (type : String) : Except EmitError String :=
  if type = "const char*" then .ok "IntPtr" else types.nameOf type .csharp

/-- The C# name of the type of an argument. Pointers to objects are safe handles. -/
def csharpArgument (types : TypeMap) (owner name type : String) : Except EmitError String :=
  if owner = "YOGI_GetConstant" && name = "dest" then .ok "ref IntPtr"
  else if owner = "YOGI_ConfigurationUpdateFromJson" && name = "json" then .ok "byte[]"
  else if type = "void*" && owner ≠ "YOGI_Destroy" && !rawPointers.contains name then
    .ok "SafeHandle"
  else types.nameOf type .csharp

/-- The name of a callback of a function or callback. -/
def callbackName (owner name : String) : String := bareName owner ++ capitalize name

def delegateLines (owner returnType : String) (parameters : List String) : List String :=
  [delegateAttribute,
    "        public delegate " ++ returnType ++ " " ++ delegateName owner ++ "("
      ++ join ", " parameters ++ ");",
    ""]

mutual

/-- The declarations that an argument needs, and its parameter in C#. -/
def csharpParameter (types : TypeMap) (owner : String) :
    Argument → Except EmitError (List String × String)
  | .scalar name type => do return ([], (← csharpArgument types owner name type) ++ " " ++ name)
  | .callback name returnType args => do
      let own := callbackName owner name
      let (hoisted, parameters) ← csharpParameters types own args
      let returnType ← csharpReturn types returnType
      return (hoisted ++ delegateLines own returnType parameters, delegateName own ++ " " ++ name)

/-- The declarations that arguments need, and their parameters in C#. -/
def csharpParameters (types : TypeMap) (owner : String) :
    List Argument → Except EmitError (List String × List String)
  | [] => .ok ([], [])
  | arg :: rest => do
      let (hoisted, parameter) ← csharpParameter types owner arg
      let (others, parameters) ← csharpParameters types owner rest
      return (hoisted ++ others, parameter :: parameters)

end

/-- The declarations of the delegate types of a function and its callbacks, the function's last. -/
def delegates (types : TypeMap) (function : Function) : Except EmitError (List String) := do
  let (hoisted, parameters) ← csharpParameters types function.name function.args
  let returnType ← csharpReturn types function.returnType
  return hoisted ++ delegateLines function.name returnType parameters

/-- Types that the installers of the mock library see as plain pointers. -/
def marshalledTypes : List String := ["SafeHandle", "string[]", "byte[]"]

/-- A line with the marshalled types as plain pointers. -/
def unmarshal (line : String) : String :=
  marshalledTypes.foldl (fun line type =>
    String.ofList (replace type.toList "IntPtr".toList line.toList)) line

/-- The declarations of the delegate types that the installers of the mock library use. -/
def mockDelegates (types : TypeMap) (function : Function) : Except EmitError (List String) := do
  return (← delegates types function).map unmarshal

end Signature

end Bindery
