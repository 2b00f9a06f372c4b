import Bindery.Interface.Basic
import Bindery.Listing
import Bindery.Naming
import Bindery.Render.Defines
import Bindery.Text.Quoted

/-!
# Versions

How each target states the version of the interface.
-/

namespace Bindery.Version

open Text

/-- The macro that holds the version of the C header. -/
def headerMacro : String := Naming.apiPrefix ++ "HDR_VERSION"

/-- A text between double quotes, as it is. -/
def quote (text : String) : String := "\"" ++ text ++ "\""

/-- The version and its parts, each with the end of its macro's name and what it is. -/
def parts (version : Version) : List (String × String × String) :=
  [ ("", quote version.text, "Whole version string"),
    ("_MAJOR", toString version.major, "Major version number"),
    ("_MINOR", toString version.minor, "Minor version number"),
    ("_PATCH", toString version.patch, "Patch version number"),
    ("_SUFFIX", quote version.suffix, "Version suffix") ]

def headerDefines (version : Version) : List Define :=
  version.parts.map fun (ending, value, help) => ⟨headerMacro ++ ending, value, help⟩

def bindingLines (version : Version) : List String :=
  let macros := version.parts
  ((Listing.empty .narrow).each macros fun listing (ending, value, help) =>
    (listing.blank.line ("/// " ++ help ++ " of the bindings")).line
      ("#define YOGI_BINDINGS_VERSION" ++ ending ++ " " ++ value)).blank.lines

def buildLines (version : Version) : List String :=
  ["    VERSION " ++ version.text, "    SOVERSION " ++ toString version.major]

def mockBuildLines (version : Version) : List String :=
  ["set(version " ++ quote version.text ++ ")"]

def recipeLines (version : Version) : List String :=
  ["    version = " ++ quote version.text]

/-- What the mock library's function for the version returns. -/
def mockReturnLines (version : Version) : List String :=
  ["  return " ++ quote version.text ++ ";"]

/-- The version that the C++ bindings compare with that of the core library. -/
def cppLibraryLines (version : Version) : List String :=
  ["    const char* bindings_version = " ++ quote version.text ++ ";"]

/-- The version that the .NET bindings compare with that of the core library. -/
def csharpLibraryLines (version : Version) : List String :=
  ["            var bindingsVersion = " ++ quote version.text ++ ";"]

def csharpProjectLines (version : Version) : List String :=
  ["    <Version>" ++ version.text ++ "</Version>"]

def csharpLines (version : Version) : List String :=
  [ "            Version = " ++ quote version.text ++ ";",
    "            VersionMajor = " ++ toString version.major ++ ";",
    "            VersionMinor = " ++ toString version.minor ++ ";",
    "            VersionPatch = " ++ toString version.patch ++ ";",
    "            VersionSuffix = " ++ quote version.suffix ++ ";" ]

/-- The version that the Python bindings compare with that of the core library. -/
def pythonLibraryLines (version : Version) : List String :=
  ["bindings_version = " ++ pythonQuoted version.text]

def pythonLines (version : Version) : List String :=
  [ "    VERSION: str = " ++ pythonQuoted version.text,
    "    VERSION_MAJOR: int = " ++ toString version.major,
    "    VERSION_MINOR: int = " ++ toString version.minor,
    "    VERSION_PATCH: int = " ++ toString version.patch,
    "    VERSION_SUFFIX: str = " ++ pythonQuoted version.suffix ]

end Bindery.Version
