/-!
# Enumerations

An enumeration of an interface: its members and the way their values are found.
-/

namespace Bindery

/-- How the values of an enumeration's members are found. -/
inductive Numbering where
  /-- 0, 1, 2, … -/
  | sequential
  /-- 0, -1, -2, … -/
  | zeroAndDescending
  /-- -1, 0, 1, … -/
  | minusOneAscending
  /-- the key of each member is its value -/
  | explicitKeyed
deriving DecidableEq, Repr

namespace Numbering

/-- The numbering of an enumeration that does not name one. -/
def ofEnumeration (name : String) : Numbering :=
  if name = "error_code" then .zeroAndDescending
  else if name = "verbosity" then .minusOneAscending
  else if name = "http_status" then .explicitKeyed
  else .sequential

def text : Numbering → String
  | .sequential => "sequential"
  | .zeroAndDescending => "zero_and_descending"
  | .minusOneAscending => "minus_one_ascending"
  | .explicitKeyed => "explicit_keyed"

def ofText? (name : String) : Option Numbering :=
  [sequential, zeroAndDescending, minusOneAscending, explicitKeyed].find? (·.text = name)

end Numbering

/-- A member of an enumeration. -/
structure Member where
  name : String
  help : String
  /-- the value that the key of the member spells, if the enumeration is keyed -/
  value? : Option Int
deriving DecidableEq, Repr

/-- An enumeration. -/
structure Enumeration where
  name : String
  numbering : Numbering
  /-- what the macros of the members start with, if it does not follow from the name -/
  macroPrefix? : Option String
  members : List Member
deriving DecidableEq, Repr

end Bindery
