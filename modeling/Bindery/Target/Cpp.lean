import Bindery.Render.Constants
import Bindery.Render.Enumerations
import Bindery.Render.Flags
import Bindery.Render.Functions
import Bindery.Target.Emitter

/-!
# C++ bindings

Bindings for C++ that consist of headers only. One header includes all others.
-/

namespace Bindery.CppBindings

def folder : String := "yogi-cpp"

/-- The folder of the headers that users include. -/
def headerFolder : String := folder ++ "/include/yogi"

def includeLine (header : String) : String := "#include \"yogi/" ++ header ++ "\""

/-- The blocks of the enumerations, two for each, and then those of the flag sets. -/
def enumerationBlocks (interface : Interface) : List (List String) :=
  (interface.enumerations.flatMap fun enumeration =>
      [enumeration.cppMembers, enumeration.cppCases])
    ++ interface.flagSets.map FlagSet.cppLines

/-- The files of the bindings with their blocks. -/
def sheets (interface : Interface) (headers : List String) : List Sheet :=
  let functions := interface.functions
  let types := interface.types
  [ .single (folder ++ "/include/yogi.h") (headers.map includeLine),
    .ofBlocks (headerFolder ++ "/detail/api.h") (return [← Function.cppLines interface]),
    .single (headerFolder ++ "/detail/library.h") interface.version.cppLibraryLines,
    .ofBlocks (headerFolder ++ "/constants.h") (Constant.cppBlocks interface),
    .single (headerFolder ++ "/version.h") interface.version.bindingLines,
    .ofBlocks (headerFolder ++ "/enums.h") (.ok (enumerationBlocks interface)),
    .ofBlocks (folder ++ "/test/common.h")
      (return [← functions.mapM (Function.cppInstaller types)]),
    .ofBlocks (folder ++ "/test/common.cc")
      (return [(← functions.mapM (Function.cppInstallerLoader types)).flatten]),
    .single (folder ++ "/conanfile.py") interface.version.recipeLines ]

def emitter : Emitter where
  name := "cpp"
  description := "Header-only C++ bindings"
  files :=
    [ "yogi-cpp/include/yogi.h",
      "yogi-cpp/include/yogi/detail/api.h",
      "yogi-cpp/include/yogi/detail/library.h",
      "yogi-cpp/include/yogi/constants.h",
      "yogi-cpp/include/yogi/version.h",
      "yogi-cpp/include/yogi/enums.h",
      "yogi-cpp/test/common.h",
      "yogi-cpp/test/common.cc",
      "yogi-cpp/conanfile.py" ]
  headerFolders := [folder]
  languages := [.c, .cpp]
  emit interface sources := do
    Sheet.allEdits (sheets interface (← sources.fileNames headerFolder ".h"))

end Bindery.CppBindings
