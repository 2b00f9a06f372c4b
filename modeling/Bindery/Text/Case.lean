import Bindery.Text.CaseTable

/-!
# Letter case

Upper and lower case of single characters, with Unicode's full mappings and without regard to
language or to neighbouring characters. For ASCII the rule is stated directly; only other
characters look into the tables.
-/

namespace Bindery.Text

/-- Whether a code point belongs to one of the ranges `(first, last, step)`. -/
def inRanges (ranges : List (Nat × Nat × Nat)) (n : Nat) : Bool :=
  ranges.any fun (first, last, step) => first ≤ n && n ≤ last && (n - first) % step = 0

/-- The image of a code point under a table of shifts and one of longer forms. -/
def mapCase (shifts : List (Nat × Nat × Nat × Int)) (long : List (Nat × List Nat)) (c : Char) :
    List Char :=
  let n := c.toNat
  match long.lookup n with
  | some form => form.map Char.ofNat
  | none =>
      match shifts.find? fun (first, last, step, _) =>
          first ≤ n && n ≤ last && (n - first) % step = 0 with
      | some (_, _, _, shift) => [Char.ofNat (n + shift).toNat]
      | none => [c]

/-- The property `Uppercase`. -/
def isUpper (c : Char) : Bool :=
  if c.toNat < 0x80 then c.isUpper else inRanges CaseTable.uppercase c.toNat

/-- The property `Lowercase`. -/
def isLower (c : Char) : Bool :=
  if c.toNat < 0x80 then c.isLower else inRanges CaseTable.lowercase c.toNat

/-- The uppercase form of a character, which may have several characters. -/
def upper (c : Char) : List Char :=
  if c.toNat < 0x80 then [c.toUpper] else mapCase CaseTable.toUpper CaseTable.toUpperLong c

/-- The lowercase form of a character, which may have several characters. -/
def lower (c : Char) : List Char :=
  if c.toNat < 0x80 then [c.toLower] else mapCase CaseTable.toLower CaseTable.toLowerLong c

/-- An ASCII character has one uppercase character. -/
theorem upper_of_ascii {c : Char} (h : c.toNat < 0x80) : upper c = [c.toUpper] := by
  simp [upper, h]

end Bindery.Text
