import Bindery.Interface.Basic
import Bindery.Naming
import Bindery.Render.Error

/-!
# Values and names of members and flags

Every target takes the values of members and flags from here, and derives their names here, so that
they agree everywhere.
-/

namespace Bindery

open Naming

namespace Enumeration

/-- The enumeration whose member of value zero is the mark of success. -/
def errorCodes : String := "error_code"

/-- The value of the member at a position. -/
def valueAt (enumeration : Enumeration) (position : Nat) (member : Member) : Int :=
  match enumeration.numbering with
  | .sequential => position
  | .zeroAndDescending => -(position : Int)
  | .minusOneAscending => (position : Int) - 1
  | .explicitKeyed => member.value?.getD position

def values (enumeration : Enumeration) : List (Member × Int) :=
  enumeration.members.zipIdx.map fun (member, position) =>
    (member, enumeration.valueAt position member)

/-- What the macros of the members start with behind the prefix of the interface. -/
def macroPrefix (enumeration : Enumeration) : String :=
  match enumeration.macroPrefix? with
  | some given => given
  | none => if enumeration.name = errorCodes then "ERR" else constantCase enumeration.name

/-- The macro of a member. The mark of success has no prefix of its own. -/
def macroName (enumeration : Enumeration) (member : String) (value : Int) : String :=
  if enumeration.name = errorCodes && value = 0 then apiPrefix ++ member
  else apiPrefix ++ enumeration.macroPrefix ++ "_" ++ member

/-- Whether a name starts with an ASCII digit. -/
def startsWithDigit (name : String) : Bool :=
  name.toList.head?.any Char.isDigit

/-- The name of a member in pascal case; one that starts with a digit gets the prefix. -/
def pascalName (enumeration : Enumeration) (member : String) : String :=
  if startsWithDigit member then pascalCase enumeration.macroPrefix ++ member
  else pascalCase member

/-- The name of a member in constant case; one that starts with a digit gets the prefix. -/
def constantName (enumeration : Enumeration) (member : String) : String :=
  if startsWithDigit member then enumeration.macroPrefix ++ "_" ++ member
  else constantCase member

end Enumeration

namespace FlagSet

-- powers are those of the core library, whatever else is imported
attribute [local instance (2000)] instPowNat

/-- All bits of the flags with the given names, among those whose values are known. -/
def combine (set flag : String) (known : List (String × Nat)) :
    List String → Except EmitError Nat
  | [] => .ok 0
  | name :: rest =>
      match known.lookup name with
      | some value => (combine set flag known rest).map (value ||| ·)
      | none => .error (.unresolvedFlag set flag name)

/-- The value of a flag, given the values of those before it. -/
def valueOf (set : String) (known : List (String × Nat)) (flag : Flag) : Except EmitError Nat :=
  match flag.kind with
  | .bit none => .ok 0
  | .bit (some bit) => .ok (2 ^ bit)
  | .combine names => combine set flag.name known names

/-- The flags with their values, given the values of those before them. -/
def valuesFrom (set : String) (known : List (String × Nat)) :
    List Flag → Except EmitError (List (Flag × Nat))
  | [] => .ok []
  | flag :: rest => do
      let value ← valueOf set known flag
      let others ← valuesFrom set ((flag.name, value) :: known) rest
      return (flag, value) :: others

/-- The flags with their values, in order. A combination names only flags before it. -/
def values (set : FlagSet) : Except EmitError (List (Flag × Nat)) :=
  valuesFrom set.name [] set.flags

/-- What the macros of the flags start with behind the prefix of the interface. -/
def macroPrefix (set : FlagSet) : String :=
  set.macroPrefix?.getD (constantCase set.name)

def macroName (set : FlagSet) (flag : String) : String :=
  apiPrefix ++ set.macroPrefix ++ "_" ++ flag

end FlagSet

/-- Refuses an interface of which a flag set has no values. -/
def Interface.checkFlags (interface : Interface) : Except EmitError Unit :=
  interface.flagSets.forM fun set => discard set.values

end Bindery
