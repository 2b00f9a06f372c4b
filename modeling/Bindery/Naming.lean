import Bindery.Text.Case
import Bindery.Text.Search

/-!
# Names

How the identifiers of generated code are derived from the names of an interface description. Every
target derives its identifiers here, so that one name has matching identifiers everywhere.
-/

namespace Bindery.Naming

open Text

/-- What every exported symbol of the interface starts with. -/
def apiPrefix : String := "YOGI_"

/-- What the installers of the mock library start with, in place of `apiPrefix`. -/
def mockPrefix : String := "MOCK_"

/-- The characters that separate the words of a name. -/
def isSeparator (c : Char) : Bool := c = '_' || c = '-' || c = ' '

def words (name : List Char) : List (List Char) :=
  (pieces isSeparator name).filter fun word => !word.isEmpty

/-- A word with its first character in upper case and the others in lower case. -/
def capitalizeWord : List Char → List Char
  | [] => []
  | c :: rest => upper c ++ rest.flatMap lower

/-- A text with its first character in upper case and the others in lower case. -/
def capitalize (name : String) : String := String.ofList (capitalizeWord name.toList)

/-- The words of a name, each capitalized, one after the other: `DefaultAdvPort`. -/
def pascalCase (name : String) : String :=
  String.ofList ((words name.toList).flatMap capitalizeWord)

/-- What stands before a character of a name, as far as the next word boundary depends on it. -/
inductive Preceding where
  /-- the start of the name, or a separator -/
  | boundary
  /-- a lowercase letter or an ASCII digit -/
  | small
  /-- any other character of a word -/
  | other
deriving DecidableEq, Repr

/-- What a character of a word is to the character that follows it. -/
def Preceding.ofChar (c : Char) : Preceding :=
  if isLower c || c.isDigit then .small else .other

/-- The uppercase form of a name, with an underscore for each run of separators that a word
precedes, and one before an uppercase letter that follows a small character. -/
def constantFrom : Preceding → List Char → List Char
  | _, [] => []
  | before, c :: rest =>
      if isSeparator c then
        (if before = .boundary then [] else ['_']) ++ constantFrom .boundary rest
      else
        (if isUpper c && before = .small then ['_'] else [])
          ++ upper c ++ constantFrom (Preceding.ofChar c) rest

/-- The words of a name in upper case with single underscores between them: `BRANCH_EVENTS`. A
change from a small character to an uppercase letter also starts a word. -/
def constantCase (name : String) : String :=
  String.ofList ((constantFrom .boundary name.toList).reverse.dropWhile (· = '_')).reverse

/-- The name without the `apiPrefix` it may start with. -/
def bareName (name : String) : String :=
  if apiPrefix.toList.isPrefixOf name.toList then
    String.ofList (name.toList.drop apiPrefix.length)
  else name

/-- The name of the installer that overrides a function of the mock library. -/
def mockName (name : String) : String := mockPrefix ++ bareName name

/-- The name of a constant of the C++ library: `kDefaultAdvPort`. -/
def kName (name : String) : String := "k" ++ pascalCase name

end Bindery.Naming
