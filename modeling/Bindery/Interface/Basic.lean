import Bindery.Interface.Constant
import Bindery.Interface.Enumeration
import Bindery.Interface.FlagSet
import Bindery.Interface.Function

/-!
# Interfaces

The description of a C interface: its version, constants, functions, enumerations and flag sets, and
the map of its types. Every list keeps the order of the document.
-/

namespace Bindery

/-- The version of an interface. -/
structure Version where
  major : Nat
  minor : Nat
  patch : Nat
  /-- what follows the numbers, with its dash -/
  suffix : String
deriving DecidableEq, Repr, Inhabited

def Version.text (version : Version) : String :=
  toString version.major ++ "." ++ toString version.minor ++ "." ++ toString version.patch
    ++ version.suffix

/-- A described interface. -/
structure Interface where
  /-- the text at the top of generated sources -/
  copyright : String
  version : Version
  constants : List Constant
  functions : List Function
  enumerations : List Enumeration
  flagSets : List FlagSet
  types : TypeMap
deriving Inhabited

namespace Interface

def function? (interface : Interface) (name : String) : Option Function :=
  interface.functions.find? (·.name = name)

def constant? (interface : Interface) (name : String) : Option Constant :=
  interface.constants.find? (·.name = name)

def enumeration? (interface : Interface) (name : String) : Option Enumeration :=
  interface.enumerations.find? (·.name = name)

def flagSet? (interface : Interface) (name : String) : Option FlagSet :=
  interface.flagSets.find? (·.name = name)

end Interface

end Bindery
