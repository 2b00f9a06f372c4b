import Bindery.Render.Constants
import Bindery.Render.Enumerations
import Bindery.Render.Flags
import Bindery.Render.Functions
import Bindery.Target.Emitter

/-!
# .NET bindings

Bindings for .NET, written in C#, that load every function of the core library as a delegate.
-/

namespace Bindery.DotnetBindings

def folder : String := "yogi-dotnet"

/-- The blocks of the enumerations and then those of the flag sets. -/
def enumerationBlocks (interface : Interface) : List (List String) :=
  interface.enumerations.map Enumeration.csharpMembers
    ++ interface.flagSets.map FlagSet.csharpLines

/-- The files of the bindings with their blocks. -/
def sheets (interface : Interface) : List Sheet :=
  let version := interface.version
  [ .single (folder ++ "/yogi/Library.cs") version.csharpLibraryLines,
    .single (folder ++ "/yogi/Version.cs") version.csharpLines,
    .single (folder ++ "/yogi/yogi.csproj") version.csharpProjectLines,
    .ofBlocks (folder ++ "/yogi/Constants.cs") (Constant.csharpBlocks interface),
    .ofBlocks (folder ++ "/yogi/Enums.cs") (.ok (enumerationBlocks interface)),
    .ofBlocks (folder ++ "/yogi/Api.cs") (return [← Function.csharpLines interface]),
    .ofBlocks (folder ++ "/test/Common.cs") (return [← Function.csharpInstallers interface]),
    .single (folder ++ "/conanfile.py") version.recipeLines ]

def emitter : Emitter where
  name := "dotnet"
  description := ".NET bindings"
  files :=
    [ "yogi-dotnet/yogi/Library.cs",
      "yogi-dotnet/yogi/Version.cs",
      "yogi-dotnet/yogi/yogi.csproj",
      "yogi-dotnet/yogi/Constants.cs",
      "yogi-dotnet/yogi/Enums.cs",
      "yogi-dotnet/yogi/Api.cs",
      "yogi-dotnet/test/Common.cs",
      "yogi-dotnet/conanfile.py" ]
  headerFolders := []
  languages := [.csharp]
  emit interface _ := Sheet.allEdits (sheets interface)

end Bindery.DotnetBindings
