import Bindery.Naming
import Bindery.Text.Column
import Bindery.Text.Search

/-!
# Embedded schemas

JSON schemas that are compiled into the core library as raw string literals.
-/

namespace Bindery

open Text Naming

/-- A schema to embed. -/
structure Schema where
  /-- its file name up to the first dot -/
  name : String
  content : String
deriving DecidableEq, Repr

namespace Schema

def ofFile (fileName content : String) : Schema :=
  ⟨String.ofList (fileName.toList.takeWhile (· ≠ '.')), content⟩

/-- The name of the variable that holds the schema. -/
def variableName (schema : Schema) : String := kName schema.name

def macroName (schema : Schema) : String := "YOGI_SCM_" ++ constantCase schema.name

/-- The declarations of schemas, with the macros that select them in a column. -/
def declarations (schemas : List Schema) : List String :=
  let declaration (schema : Schema) : String := "extern const char " ++ schema.variableName ++ "[];"
  let width := columnWidth (schemas.map declaration)
  schemas.map fun schema =>
    padRight width (declaration schema) ++ "  // " ++ schema.macroName

def cases (schemas : List Schema) : List String :=
  schemas.map fun schema =>
    "    case " ++ schema.macroName ++ ": return schemas::" ++ schema.variableName ++ ";"

def definition (schema : Schema) : String :=
  "const char " ++ schema.variableName ++ "[] = R\"raw(" ++ schema.content ++ ")raw\";"

def definitions (schemas : List Schema) : List String :=
  schemas.flatMap fun schema =>
    "" :: ("// " ++ schema.macroName)
      :: (lines schema.definition.toList).map String.ofList

end Schema

end Bindery
