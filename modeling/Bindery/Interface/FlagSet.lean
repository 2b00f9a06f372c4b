/-!
# Flag sets

A flag set of an interface: named bits, and named combinations of them.
-/

namespace Bindery

/-- The highest bit that a flag may have, so that every value fits into 64 bits with sign. -/
def maxBit : Nat := 62

/-- What a flag stands for. -/
inductive Flag.Kind where
  /-- one bit, or none at all -/
  | bit (bit? : Option Nat)
  /-- all bits of the flags with these names -/
  | combine (names : List String)
deriving DecidableEq, Repr

/-- A flag of a set. -/
structure Flag where
  name : String
  help : String
  kind : Flag.Kind
deriving DecidableEq, Repr

/-- A set of flags. -/
structure FlagSet where
  name : String
  /-- what the macros of the flags start with, if it does not follow from the name -/
  macroPrefix? : Option String
  flags : List Flag
deriving DecidableEq, Repr

end Bindery
