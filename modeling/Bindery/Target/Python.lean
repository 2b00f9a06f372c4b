import Bindery.Render.Constants
import Bindery.Render.Enumerations
import Bindery.Render.Flags
import Bindery.Render.Functions
import Bindery.Target.Emitter

/-!
# Python bindings

Bindings for Python that call the core library by way of ctypes.
-/

namespace Bindery.PythonBindings

def folder : String := "yogi-python"

/-- The blocks of the enumerations and then those of the flag sets. -/
def enumerationBlocks (interface : Interface) : Except EmitError (List (List String)) := do
  let flagSets ← interface.flagSets.mapM FlagSet.pythonLines
  return interface.enumerations.map Enumeration.pythonMembers ++ flagSets

/-- The files of the bindings with their blocks. -/
def sheets (interface : Interface) : List Sheet :=
  let version := interface.version
  [ .ofBlocks (folder ++ "/yogi/_library.py")
      (return [version.pythonLibraryLines, ← Function.pythonLines interface]),
    .ofBlocks (folder ++ "/yogi/_enums.py") (enumerationBlocks interface),
    .ofBlocks (folder ++ "/yogi/_constants.py") (Constant.pythonBlocks interface),
    .single (folder ++ "/yogi/_version.py") version.pythonLines,
    .ofBlocks (folder ++ "/test/conftest.py")
      (return [← Function.pythonInstallers interface "self._keepalive"]),
    .ofBlocks (folder ++ "/test/common.py")
      (return [← Function.pythonInstallers interface "self.keepalive"]),
    .single (folder ++ "/conanfile.py") version.recipeLines ]

def emitter : Emitter where
  name := "python"
  description := "Python (ctypes) bindings"
  files :=
    [ "yogi-python/yogi/_library.py",
      "yogi-python/yogi/_enums.py",
      "yogi-python/yogi/_constants.py",
      "yogi-python/yogi/_version.py",
      "yogi-python/test/conftest.py",
      "yogi-python/test/common.py",
      "yogi-python/conanfile.py" ]
  headerFolders := []
  languages := [.python]
  emit interface _ := Sheet.allEdits (sheets interface)

end Bindery.PythonBindings
