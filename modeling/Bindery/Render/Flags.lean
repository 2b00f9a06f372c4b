import Bindery.Listing
import Bindery.Render.Enumerations

/-!
# Flags

How each target declares the flags of a set. C, C++ and C# state a flag as an expression over bits and
other flags, Python as a number.
-/

namespace Bindery

open Text Naming

/-- The expression of a flag in C and C++, given the names of the flags it combines. -/
def Flag.Kind.expression (nameOf : String → String) : Flag.Kind → String
  | .bit none => "0"
  | .bit (some position) => "(1 << " ++ toString position ++ ")"
  | .combine names => "(" ++ join " | " (names.map nameOf) ++ ")"

def Flag.Kind.csharpExpression : Flag.Kind → String
  | .bit none => "0"
  | .bit (some position) => "1 << " ++ toString position
  | .combine names => join " | " (names.map pascalCase)

namespace FlagSet

/-! ## C header -/

/-- The macro of a flag, and its expression. -/
def define (set : FlagSet) (flag : Flag) : Define :=
  ⟨set.macroName flag.name, flag.kind.expression set.macroName, flag.help⟩

/-- The macros of the flags of every set. -/
def headerLines (interface : Interface) : List String :=
  separate <| interface.flagSets.map fun set => Define.lines (set.flags.map set.define)

/-! ## C++ bindings -/

/-- The lines that declare a flag in C++. -/
def cppFlag (listing : Listing) (flag : Flag) : Listing :=
  let help := (lines flag.help.toList).map String.ofList
  ((listing.blank.deeper.each help fun listing line => listing.doc "//!" line).line
    (kName flag.name ++ " = " ++ flag.kind.expression kName ++ ",")).shallower

/-- The lines that define an operator on a set in C++. -/
def cppOperator (header body : String) (listing : Listing) : Listing :=
  (listing.block (header ++ " \x7b") "\x7d" (·.line body)).blank

/-- The lines that define the operators on a set with a name in C++. -/
def cppOperators (name : String) (listing : Listing) : Listing :=
  let pair (symbol : String) : String :=
    "inline " ++ name ++ " operator" ++ symbol ++ "(" ++ name ++ " a, " ++ name ++ " b)"
  let assignment (symbol : String) : String :=
    "inline " ++ name ++ "& operator" ++ symbol ++ "(" ++ name ++ "& a, " ++ name ++ " b)"
  let cast (value : String) : String := "return static_cast<" ++ name ++ ">(" ++ value ++ ");"
  listing
    |> cppOperator ("inline " ++ name ++ " operator~(" ++ name ++ " flags)")
        (cast "~static_cast<int>(flags)")
    |> cppOperator (pair "|") (cast "static_cast<int>(a) | static_cast<int>(b)")
    |> cppOperator (pair "&") (cast "static_cast<int>(a) & static_cast<int>(b)")
    |> cppOperator (assignment "|=") "return a = a | b;"
    |> cppOperator (assignment "&=") "return a = a & b;"

/-- The names of the flags that the text of a value can list, in the order in which they are tried:
the last flag first. -/
def listedNames (set : FlagSet) : List String :=
  ((set.flags.map fun flag => kName flag.name).filter (· ≠ "kNone")).reverse

/-- The lines that list one flag, if it is set, in the text of a value in C++. -/
def cppListing (set flag : String) (listing : Listing) : Listing :=
  let name := set ++ "::" ++ flag
  listing.blank.block ("if ((flags & " ++ name ++ ") == " ++ name ++ ") \x7b") "\x7d" fun listing =>
    (listing.line ("flags = flags & ~" ++ name ++ ";")).line
      ("ss = std::string\x7b\"" ++ flag ++ " | \"\x7d + ss;")

/-- The lines that find the text of a value in C++. -/
def cppText (set : FlagSet) (name : String) (listing : Listing) : Listing :=
  let header := "inline std::string to_string<" ++ name ++ ">(" ++ name ++ " flags) \x7b"
  (listing.line "template <>").block header "\x7d" fun listing =>
    (((listing.line "std::string ss;").each set.listedNames fun listing flag =>
        cppListing name flag listing).blank).line
      "return ss.empty() ? \"kNone\" : ss.substr(0, ss.size() - 3);"

/-- The lines that declare a set in C++, from its first flag on. -/
def cppLines (set : FlagSet) : List String :=
  let name := pascalCase set.name
  let members := (((Listing.empty .narrow).each set.flags cppFlag).line "\x7d;").blank
  (cppText set name (cppOperators name members)).blank.lines

/-! ## .NET bindings -/

/-- The summary of a flag in C#, on one line or on several. -/
def csharpSummary (help : String) : List String :=
  let help := trimEnd help.toList
  if help.contains '\n' then
    "        /// <summary>"
      :: (lines help).map (fun line => String.ofList (trimEnd ("        /// ".toList ++ line)))
      ++ ["        /// </summary>"]
  else ["        /// <summary>" ++ String.ofList help ++ "</summary>"]

/-- The lines that declare a set in C#. -/
def csharpLines (set : FlagSet) : List String :=
  (set.flags.flatMap fun flag =>
    "" :: csharpSummary flag.help
      ++ ["        " ++ pascalCase flag.name ++ " = " ++ flag.kind.csharpExpression ++ ","])
    ++ [""]

/-! ## Python bindings -/

/-- The lines that declare a set in Python. -/
def pythonLines (set : FlagSet) : Except EmitError (List String) := do
  return (← set.values).map fun (flag, value) =>
    Enumeration.pythonMember (constantCase flag.name) value flag.help

end FlagSet

end Bindery
