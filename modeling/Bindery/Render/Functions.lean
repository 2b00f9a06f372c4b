import Bindery.Listing
import Bindery.Render.Signature

/-!
# Functions

How each target declares, loads and overrides the functions of an interface.
-/

namespace Bindery.Function

open Text Naming

/-! ## C header -/

/-- The line that declares a function in the C header. -/
def headerLine (types : TypeMap) (function : Function) : Except EmitError String := do
  return "YOGI_API " ++ (← Signature.c types function function.name) ++ ";"

/-! ## Mock library -/

/-- The name of the hand-written default of a function. -/
def defaultName (function : Function) : String := "default_" ++ bareName function.name

/-- The name of the variable that holds what a function does. -/
def holderName (function : Function) : String := "mock_" ++ bareName function.name ++ "_fn"

/-- Whether a text has the default of a function. -/
def hasDefault (source : String) (function : Function) : Bool :=
  occurs (function.defaultName ++ "(").toList source.toList

/-- What a function does at first, in a mock library with the given defaults. -/
def initializer (defaults : String) (function : Function) : String :=
  if function.hasDefault defaults then function.defaultName else "\x7b\x7d"

/-- The line that declares the installer of a function. -/
def installerLine (function : Function) : String :=
  "YOGI_API void " ++ mockName function.name ++ "(decltype(" ++ function.name ++ ") fn);"

/-- The line that a function ends with when nothing is installed, by the C type it returns. -/
def fallback (returnType : String) : String :=
  if returnType = "void" then "return;"
  else if returnType = "const char*" then "return \"\";"
  else "return YOGI_ERR_UNKNOWN;"

/-- The lines that define a function of the mock library and its installer. -/
def mockLines (types : TypeMap) (defaults : String) (listing : Listing)
    (function : Function) : Except EmitError Listing := do
  let name := function.name
  let holder := function.holderName
  let signature ← Signature.c types function name
  let returnType ← types.nameOf function.returnType .c
  let guard := "std::lock_guard<std::mutex> lock(global_mock_mutex);"
  let head := ((listing.line ("// Mock implementation for " ++ name)).line
    ("static std::function<decltype(" ++ name ++ ")> " ++ holder ++ " = "
      ++ function.initializer defaults ++ ";")).blank
  let entry := head.block ("YOGI_API " ++ signature ++ " \x7b") "\x7d" fun listing =>
    (((listing.line guard).block ("if (!" ++ holder ++ ") \x7b") "\x7d" fun listing =>
      (listing.line ("std::cout << \"WARNING: Unmonitored mock function call: " ++ name
        ++ "()\" << std::endl;")).line (fallback returnType)).blank).line
      ("return " ++ holder ++ "(" ++ function.passedArguments ++ ");")
  let header := "YOGI_API void " ++ mockName name ++ "(decltype(" ++ name ++ ") fn) \x7b"
  let installer := entry.blank.block header "\x7d" fun listing =>
    (listing.line guard).line
      (holder ++ " = fn ? fn : decltype(" ++ holder ++ ")\x7b\x7d;")
  return installer.blank

/-- The lines that define the functions of the mock library, and those that reset them. -/
def mockBlocks (interface : Interface) (defaults : String) :
    Except EmitError (List (List String)) := do
  let listing ← (Listing.empty .narrow).blank.tryEach interface.functions
    (mockLines interface.types defaults)
  let resets := interface.functions.map fun function =>
    "  " ++ function.holderName ++ " = " ++ function.initializer defaults ++ ";"
  return [listing.lines, resets]

/-! ## C++ bindings -/

/-- The lines that load a function in C++. -/
def cppPointer (types : TypeMap) (listing : Listing) (function : Function) :
    Except EmitError Listing := do
  let pointer ← Signature.c types function ("(*" ++ function.name ++ ")")
  let type ← Signature.c types function "(*)"
  return ((((listing.blank.line ("// " ++ function.name)).line
    ("_YOGI_WEAK_SYMBOL " ++ pointer ++ " =")).deeper.deeper).line
    ("Library::get_function_address<" ++ type ++ ">(\"" ++ function.name ++ "\");")).shallower.shallower

/-- The lines that load the functions in C++. -/
def cppLines (interface : Interface) : Except EmitError (List String) := do
  let listing ← (Listing.empty .narrow).tryEach interface.functions (cppPointer interface.types)
  return listing.blank.lines

/-- The line that declares the installer of a function for the tests of the C++ bindings. -/
def cppInstaller (types : TypeMap) (function : Function) : Except EmitError String := do
  let parameter ← Signature.c types function "(*fn)"
  return "  static void (*" ++ mockName function.name ++ ")(" ++ parameter ++ ");"

/-- The lines that load the installer of a function for the tests of the C++ bindings. -/
def cppInstallerLoader (types : TypeMap) (function : Function) :
    Except EmitError (List String) := do
  let mock := mockName function.name
  let parameter ← Signature.c types function "(*fn)"
  return [ "void (*Test::" ++ mock ++ ")(" ++ parameter ++ ")",
    " = detail::Library::get_function_address<void (*)(" ++ parameter ++ ")>(\"" ++ mock ++ "\");",
    "" ]

/-! ## .NET bindings -/

/-- The lines that declare and load a function in C#. -/
def csharpLoader (types : TypeMap) (function : Function) : Except EmitError (List String) := do
  let name := function.name
  let delegate := Signature.delegateName name
  let delegates ← Signature.delegates types function
  return ["", "        // " ++ name] ++ delegates
    ++ [ "        public static " ++ delegate ++ " " ++ name,
      "            = Library.GetDelegateForFunction<" ++ delegate ++ ">(\"" ++ name ++ "\");" ]

/-- The lines that declare and load the functions in C#. -/
def csharpLines (interface : Interface) : Except EmitError (List String) := do
  return (← interface.functions.mapM (csharpLoader interface.types)).flatten ++ [""]

/-- The lines that declare and load the installer of a function for the tests in C#. -/
def csharpInstaller (types : TypeMap) (function : Function) : Except EmitError (List String) := do
  let mock := mockName function.name
  let installer := bareName function.name ++ "MockDelegate"
  let delegates ← Signature.mockDelegates types function
  return ["", "        // " ++ mock] ++ delegates
    ++ [ Signature.delegateAttribute,
      "        internal delegate void " ++ installer ++ "("
        ++ Signature.delegateName function.name ++ " fn);",
      "",
      "        internal static " ++ installer ++ " " ++ mock,
      "            = Yogi.Library.GetDelegateForFunction<" ++ installer ++ ">(\"" ++ mock ++ "\");" ]

/-- The lines that declare and load the installers for the tests in C#. -/
def csharpInstallers (interface : Interface) : Except EmitError (List String) := do
  return (← interface.functions.mapM (csharpInstaller interface.types)).flatten ++ [""]

/-! ## Python bindings -/

/-- The object that holds the functions of the core library in Python. -/
def pythonLibrary : String := "yogi_core"

/-- What becomes of the value that a function returns in Python: a number is an error code, except
for the function that compares versions. -/
def pythonResult (types : TypeMap) (function : Function) : Except EmitError String :=
  if function.returnType = "int" && function.name ≠ "YOGI_CheckBindingsCompatibility" then
    .ok "api_result_handler"
  else Signature.ctype types function.returnType

/-- The lines that declare a function in Python. -/
def pythonPrototype (types : TypeMap) (function : Function) : Except EmitError (List String) := do
  let name := pythonLibrary ++ "." ++ function.name
  let result ← function.pythonResult types
  let args ← Signature.ctypesArguments types function.args
  return [ "", name ++ ".restype = " ++ result,
    name ++ ".argtypes = [" ++ join ", " args ++ "]" ]

/-- The lines that declare the functions in Python. -/
def pythonLines (interface : Interface) : Except EmitError (List String) := do
  return (← interface.functions.mapM (pythonPrototype interface.types)).flatten

/-- The lines of the installer of a function for the tests in Python. The list named keeps what is
installed alive. -/
def pythonInstaller (types : TypeMap) (keepalive : String) (function : Function) :
    Except EmitError (List String) := do
  let mock := mockName function.name
  let prototype ← Signature.ctypes types function
  return [ "    def " ++ mock ++ "(self, fn):",
    "        mock_fn = yogi._library." ++ pythonLibrary ++ "." ++ mock,
    "        mock_fn.restype = None",
    "        mock_fn.argtypes = [" ++ prototype ++ "]",
    "        wrapped_fn = mock_fn.argtypes[0](fn)",
    "        " ++ keepalive ++ ".append(wrapped_fn)",
    "        mock_fn(wrapped_fn)",
    "" ]

/-- The lines of the installers for the tests in Python. -/
def pythonInstallers (interface : Interface) (keepalive : String) :
    Except EmitError (List String) := do
  return "" :: (← interface.functions.mapM (pythonInstaller interface.types keepalive)).flatten

end Bindery.Function
