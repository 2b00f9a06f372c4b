import Bindery.Render.Constants
import Bindery.Render.Functions
import Bindery.Target.Emitter

/-!
# Mock library

The library that stands in for the core library in the tests of bindings: what each of its functions
does is installed by a test. Some functions have a default that is written by hand.
-/

namespace Bindery.MockLibrary

def folder : String := "yogi-core-mock"

def defaultsFile : String := folder ++ "/src/default_functions.h"

/-- The files of the library with their blocks. -/
def sheets (interface : Interface) (defaults : String) : List Sheet :=
  let version := interface.version
  [ .ofBlocks defaultsFile
      (return [version.mockReturnLines, ← interface.constants.mapM (Constant.mockCase version)]),
    .single (folder ++ "/include/yogi_core_mock.h")
      (interface.functions.map Function.installerLine),
    .ofBlocks (folder ++ "/src/yogi_core_mock.cc") (Function.mockBlocks interface defaults),
    .single (folder ++ "/CMakeLists.txt") version.mockBuildLines,
    .single (folder ++ "/conanfile.py") version.recipeLines ]

def emitter : Emitter where
  name := "mock"
  description := "Mock library: overridable ABI entry points for binding tests"
  files :=
    [ "yogi-core-mock/src/default_functions.h",
      "yogi-core-mock/include/yogi_core_mock.h",
      "yogi-core-mock/src/yogi_core_mock.cc",
      "yogi-core-mock/CMakeLists.txt",
      "yogi-core-mock/conanfile.py" ]
  headerFolders := [folder]
  languages := [.c]
  emit interface sources := do Sheet.allEdits (sheets interface (← sources.read defaultsFile))

end Bindery.MockLibrary
