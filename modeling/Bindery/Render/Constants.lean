import Bindery.Listing
import Bindery.Render.Defines
import Bindery.Render.Literal
import Bindery.Render.Types
import Bindery.Render.Versions

/-!
# Constants

How each target declares, defines and reads the constants of an interface. A constant's id is its
position in the description, from one on; each target counts the positions on its own.
-/

namespace Bindery

open Text Naming

namespace Constant

def macroName (constant : Constant) : String := apiPrefix ++ "CONST_" ++ constant.name

def variableName (constant : Constant) : String := kName constant.name

/-! ## C header and core library -/

/-- The lines that define the macros of the constants' ids. -/
def idLines (interface : Interface) : List String :=
  ((Listing.empty .narrow).each interface.constants.zipIdx fun listing (constant, position) =>
    ((listing.when (0 < position) Listing.blank).doc "//!" constant.help).line
      ("#define " ++ constant.macroName ++ " " ++ toString (position + 1))).lines

/-- The lines that define a constant: on one line, or with each of its literals on one. -/
def definition (constant : Constant) : Except EmitError (List String) := do
  let type ← constant.typeIn .c
  let declaration := type ++ " const " ++ constant.variableName ++ " ="
  match constant.value.literals type with
  | [literal] => return [declaration ++ " " ++ literal ++ ";"]
  | literals =>
      let margin (literal : String) : String := "    " ++ literal
      return declaration :: (literals.map margin).modify (literals.length - 1) (· ++ ";")

/-- The lines that define the constants in the core library. -/
def definitions (interface : Interface) : Except EmitError (List String) := do
  return (← interface.constants.mapM definition).flatten

/-- The line that reads a constant in the core library. -/
def readingCase (constant : Constant) : Except EmitError String := do
  let type ← constant.typeIn .c
  return "    case " ++ constant.macroName ++ ": *static_cast<" ++ type ++ "*>(dest) = "
    ++ constant.variableName ++ "; break;"
    ++ if type = Value.longLong then " // NOLINT(google-runtime-int)" else ""

/-- The line that compares a constant with what the core library reads. -/
def comparison (constant : Constant) : String :=
  "  check(" ++ constant.macroName ++ ", " ++ constant.variableName ++ ");"

/-! ## Mock library -/

/-- The value that the mock library has for a constant of a type. -/
def mockValue (version : Version) (constant : Constant) (type : String) : String :=
  if constant.name = "VERSION" then Version.quote version.text
  else if constant.name = "VERSION_MAJOR" then toString version.major
  else if constant.name = "VERSION_MINOR" then toString version.minor
  else if constant.name = "VERSION_PATCH" then toString version.patch
  else if constant.name = "VERSION_SUFFIX" then Version.quote version.suffix
  else if type = "const char*" then Version.quote "foobar"
  else if type = "int" then "1"
  else if type = Value.longLong then "123456789"
  else "\x7b\x7d"

/-- The line that reads a constant in the mock library. -/
def mockCase (version : Version) (constant : Constant) : Except EmitError String := do
  let type ← constant.typeIn .c
  return "    case " ++ constant.macroName ++ ": *static_cast<" ++ type ++ "*>(dest) = "
    ++ mockValue version constant type ++ "; break;"

/-! ## C++ bindings -/

/-- What the C++ bindings need to know of a constant. -/
structure Row where
  name : String
  c : String
  cpp : String
  help : String

def row (constant : Constant) : Except EmitError Row := do
  let c ← constant.typeIn .c
  let cpp ← constant.typeIn .cpp
  return { name := constant.variableName, c, cpp, help := singleLine constant.help }

/-- The lines that declare constants in C++, and those that define them, both in columns. -/
def cppBlocks (interface : Interface) : Except EmitError (List (List String)) := do
  let rows ← interface.constants.mapM row
  let cWidth := columnWidth (rows.map Row.c)
  let cppWidth := columnWidth (rows.map Row.cpp)
  let nameWidth := columnWidth (rows.map Row.name)
  let declaration (row : Row) : String :=
    "  static const " ++ padRight cppWidth row.cpp ++ " "
      ++ padRight (nameWidth + 1) (row.name ++ ";") ++ "  ///< " ++ row.help
  let definition (row : Row) (position : Nat) : String :=
    "_YOGI_WEAK_SYMBOL const " ++ padRight cppWidth row.cpp ++ " constants::"
      ++ padRight nameWidth row.name ++ " = detail::get_core_constant<"
      ++ padRight (cppWidth + 1) (row.cpp ++ ",") ++ " " ++ padRight cWidth row.c ++ ">("
      ++ padLeft 2 (toString (position + 1)) ++ ");"
  return [rows.map declaration, rows.zipIdx.map fun (row, position) => definition row position]

/-! ## .NET bindings -/

/-- The lines that declare a constant in C#. -/
def csharpMember (constant : Constant) : Except EmitError (List String) := do
  let type ← constant.typeIn .csharp
  return [ "",
    "        /// <summary>" ++ singleLine constant.help ++ "</summary>",
    "        public static readonly " ++ type ++ " " ++ pascalCase constant.name ++ ";" ]

/-- The line that reads a constant with an id in C#. -/
def csharpExtraction (constant : Constant) (id : Nat) : String :=
  "           ExtractConstant(ref " ++ pascalCase constant.name ++ ", " ++ toString id ++ ");"

/-- The lines that declare constants in C#, and those that read them. -/
def csharpBlocks (interface : Interface) : Except EmitError (List (List String)) := do
  let members ← interface.constants.mapM csharpMember
  return [ members.flatten ++ [""],
    interface.constants.zipIdx.map fun (constant, position) => csharpExtraction constant (position + 1) ]

/-! ## Python bindings -/

/-- The Python type of a value that is read with a ctypes type. -/
def pythonType (ctype : String) : String :=
  if ctype = "c_char_p" || ctype = "c_wchar_p" then "str"
  else if ctype = "c_float" || ctype = "c_double" || ctype = "c_longdouble" then "float"
  else if ctype = "c_bool" then "bool"
  else "int"

/-- The line that reads a constant with an id in Python. -/
def pythonAttribute (constant : Constant) (id : Nat) : Except EmitError String := do
  let ctype ← constant.typeIn .python
  return "    " ++ constant.name ++ ": " ++ pythonType ctype ++ " = get_constant(" ++ toString id
    ++ ", " ++ ctype ++ ")"

/-- The row of a constant in the table of the Python bindings: name, type and help. -/
def pythonRow (constant : Constant) : Except EmitError (String × String × String) := do
  return (constant.name, pythonType (← constant.typeIn .python), singleLine constant.help)

def pythonTable (rows : List (String × String × String)) : List String :=
  let head := ("Name", "Type", "Description")
  let all := head :: rows
  let nameWidth := columnWidth (all.map fun row => row.1)
  let typeWidth := columnWidth (all.map fun row => row.2.1)
  let helpWidth := columnWidth (all.map fun row => row.2.2)
  let bar (width : Nat) : String := String.ofList (List.replicate width '=')
  let rule := "    " ++ bar nameWidth ++ " " ++ bar typeWidth ++ " " ++ bar helpWidth
  let line (row : String × String × String) : String :=
    "    " ++ padRight nameWidth row.1 ++ " " ++ padRight typeWidth row.2.1 ++ " " ++ row.2.2
  [rule, line head, rule] ++ rows.map line ++ [rule]

/-- The table of the Python bindings, and the lines that read the constants. -/
def pythonBlocks (interface : Interface) : Except EmitError (List (List String)) := do
  let attributes ← interface.constants.zipIdx.mapM fun (constant, position) =>
    pythonAttribute constant (position + 1)
  let rows ← interface.constants.mapM pythonRow
  return [pythonTable rows, attributes]

end Constant

end Bindery
