import Bindery.Render.Defines
import Bindery.Render.Values
import Bindery.Text.Quoted

/-!
# Enumerations

How each target declares the members of an enumeration.
-/

namespace Bindery.Enumeration

open Text Naming

/-! ## C header and core library -/

/-- The macro of a member, and its value. -/
def define (enumeration : Enumeration) (member : Member) (value : Int) : Define :=
  ⟨enumeration.macroName member.name value, toString value, member.help⟩

/-- The macros of the members of every enumeration. -/
def headerLines (interface : Interface) : List String :=
  separate <| interface.enumerations.map fun enumeration =>
    Define.lines (enumeration.values.map fun (member, value) => enumeration.define member value)

/-- The members of the enumeration of error codes with their macros. -/
def errorMacros (interface : Interface) : List (Member × String) :=
  match interface.enumeration? errorCodes with
  | none => []
  | some enumeration => enumeration.values.map fun (member, value) =>
      (member, enumeration.macroName member.name value)

/-- The lines that find the text of an error. -/
def errorCases (interface : Interface) : List String :=
  (errorMacros interface).map fun (member, name) =>
    "    case " ++ name ++ ": return " ++ cQuoted member.help ++ ";"

def lastErrorLines (interface : Interface) : List String :=
  ((errorMacros interface).getLast?.map fun (_, name) =>
    "int kLastError = " ++ name ++ ";").toList

/-! ## C++ bindings -/

/-- The lines that declare the members in C++. -/
def cppMembers (enumeration : Enumeration) : List String :=
  let width := columnWidth (enumeration.members.map fun member => kName member.name)
  enumeration.values.map fun (member, value) =>
    "  " ++ padRight width (kName member.name) ++ " = " ++ padLeft 3 (toString value) ++ ", ///< "
      ++ singleLine member.help

/-- The lines that find the name of a member in C++. -/
def cppCases (enumeration : Enumeration) : List String :=
  let width := columnWidth (enumeration.members.map fun member => kName member.name) + 1
  enumeration.members.map fun member =>
    let name := kName member.name
    "  case " ++ pascalCase enumeration.name ++ "::" ++ padRight width (name ++ ":")
      ++ " return \"" ++ name ++ "\";"

/-! ## .NET and Python bindings -/

/-- The lines that declare the members in C#. -/
def csharpMembers (enumeration : Enumeration) : List String :=
  (enumeration.values.flatMap fun (member, value) =>
    [ "",
      "        /// <summary>" ++ singleLine member.help ++ "</summary>",
      "        " ++ enumeration.pascalName member.name ++ " = " ++ toString value ++ "," ])
    ++ [""]

/-- A line that declares a member or flag in Python. -/
def pythonMember (name : String) (value : Int) (help : String) : String :=
  "    " ++ name ++ " = " ++ toString value ++ ", " ++ pythonQuoted (singleLine help)

/-- The lines that declare the members in Python. -/
def pythonMembers (enumeration : Enumeration) : List String :=
  enumeration.values.map fun (member, value) =>
    pythonMember (enumeration.constantName member.name) value member.help

end Bindery.Enumeration
