import Bindery.Render.Constants
import Bindery.Render.Enumerations
import Bindery.Render.Flags
import Bindery.Render.Functions
import Bindery.Target.Emitter

/-!
# Core library

The library that implements the interface: its public header, the values of its constants, the texts
of its errors, and the schemas it embeds.
-/

namespace Bindery.CoreLibrary

def folder : String := "yogi-core"

/-- The folder of the schemas that are embedded. -/
def schemaFolder : String := folder ++ "/src/schemas"

/-- The schemas of a checkout, by file name. -/
def schemas (sources : Sources) : Except EmitError (List Schema) := do
  return (← sources.readFiles schemaFolder ".schema.json").map fun (name, content) =>
    Schema.ofFile name content

def headerBlocks (interface : Interface) : Except EmitError (List (List String)) := do
  let functions ← interface.functions.mapM (Function.headerLine interface.types)
  return [ Define.lines interface.version.headerDefines, Constant.idLines interface,
    Enumeration.headerLines interface, FlagSet.headerLines interface, functions ]

/-- The files of the library with their blocks. In the build file, the blocks before and behind the
one with the version list sources and are written by hand. -/
def sheets (interface : Interface) (schemas : List Schema) : List Sheet :=
  let constants := interface.constants
  [ .ofBlocks (folder ++ "/include/yogi_core.h") (headerBlocks interface),
    .ofBlocks (folder ++ "/src/api/constants.h") (return [← Constant.definitions interface]),
    .ofBlocks (folder ++ "/src/api/constants.cc")
      (return [← constants.mapM Constant.readingCase]),
    .single (folder ++ "/test/api/constants_test.cc") (constants.map Constant.comparison),
    .single (folder ++ "/src/api/errors.cc") (Enumeration.errorCases interface),
    .single (folder ++ "/test/api/errors_test.cc") (Enumeration.lastErrorLines interface),
    .single (schemaFolder ++ "/schemas.h") (Schema.declarations schemas),
    .ofBlocks (schemaFolder ++ "/schemas.cc")
      (.ok [Schema.cases schemas, Schema.definitions schemas]),
    { Sheet.single (folder ++ "/CMakeLists.txt") interface.version.buildLines with first := 1 },
    .single (folder ++ "/conanfile.py") interface.version.recipeLines ]

def emitter : Emitter where
  name := "core"
  description := "Native core library: public header, constants, error strings and schemas"
  files :=
    [ "yogi-core/include/yogi_core.h",
      "yogi-core/src/api/constants.h",
      "yogi-core/src/api/constants.cc",
      "yogi-core/test/api/constants_test.cc",
      "yogi-core/src/api/errors.cc",
      "yogi-core/test/api/errors_test.cc",
      "yogi-core/src/schemas/schemas.h",
      "yogi-core/src/schemas/schemas.cc",
      "yogi-core/CMakeLists.txt",
      "yogi-core/conanfile.py" ]
  headerFolders := [folder]
  languages := [.c]
  emit interface sources := do Sheet.allEdits (sheets interface (← schemas sources))

end Bindery.CoreLibrary
