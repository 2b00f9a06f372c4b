import Bindery.Text.Search
import Bindery.Toml.Value

/-!
# Numbers of a document

How the spelling of a number is read: whole numbers in base ten, or in base sixteen, eight or two
behind a mark, of 64 bits with sign; and floating-point numbers. Digits may be grouped by single
underscores.
-/

namespace Bindery.Toml

open Text

-- powers are those of the core library, whatever else is imported
attribute [local instance (2000)] instPowNat

/-- The digits of a number whose groups are separated by single underscores. -/
def ungroup? (isDigit : Char → Bool) (text : List Char) : Option (List Char) :=
  let groups := pieces (· = '_') text
  if groups.all fun group => !group.isEmpty && group.all isDigit then some groups.flatten else none

/-- The value of a digit of any base up to sixteen. -/
def hexValue? (c : Char) : Option Nat :=
  if c.isDigit then some (c.toNat - 0x30)
  else if 'a' ≤ c && c ≤ 'f' then some (c.toNat - 0x61 + 10)
  else if 'A' ≤ c && c ≤ 'F' then some (c.toNat - 0x41 + 10)
  else none

/-- Whether a character is a digit of a base. -/
def isDigitOf (base : Nat) (c : Char) : Bool := (hexValue? c).any (· < base)

/-- The number that digits of a base spell. -/
def valueOf (base : Nat) (digits : List Char) : Nat :=
  digits.foldl (fun value c => base * value + (hexValue? c).getD 0) 0

/-- The digits of a whole number in base ten, which has no zero in front. -/
def decimalDigits? (text : List Char) : Option (List Char) := do
  let digits ← ungroup? Char.isDigit text
  if digits.head? = some '0' && digits.length ≠ 1 then none else some digits

def splitSign : List Char → Bool × List Char
  | '-' :: rest => (true, rest)
  | '+' :: rest => (false, rest)
  | text => (false, text)

/-- Whether a number can be held in 64 bits with sign. -/
def fitsInt64 (value : Int) : Bool := -2 ^ (63 : Nat) ≤ value && value < 2 ^ (63 : Nat)

def signed (negative : Bool) (magnitude : Nat) : Int :=
  if negative then -(magnitude : Int) else magnitude

def readInteger? (text : List Char) : Option Int := do
  let based (base : Nat) (digits : List Char) : Option Int :=
    (ungroup? (isDigitOf base) digits).map fun digits => (valueOf base digits : Int)
  let value ←
    match text with
    | '0' :: 'x' :: digits => based 16 digits
    | '0' :: 'o' :: digits => based 8 digits
    | '0' :: 'b' :: digits => based 2 digits
    | _ =>
        let (negative, rest) := splitSign text
        (decimalDigits? rest).map fun digits => signed negative (valueOf 10 digits)
  if fitsInt64 value then some value else none

/-- The whole number that a text of digits spells, leading zeros and a sign allowed. -/
def readKeyInteger? (text : List Char) : Option Int :=
  let (negative, digits) := splitSign text
  if !digits.isEmpty && digits.all Char.isDigit then
    let value := signed negative (valueOf 10 digits)
    if fitsInt64 value then some value else none
  else none

/-- The exponent of a floating-point number, which may be missing. -/
def readExponent? : List Char → Option Int
  | [] => some 0
  | _ :: text =>
      let (negative, rest) := splitSign text
      (ungroup? Char.isDigit rest).map fun digits => signed negative (valueOf 10 digits)

/-- The floating-point number that a text spells. It has a fraction or an exponent, and is neither
too great for a number nor cut short. -/
def readFloat? (text : List Char) : Option Binary64 :=
  let (negative, rest) := splitSign text
  if rest = "inf".toList then some (.infinity negative)
  else if rest = "nan".toList then some .nan
  else do
    let isMark (c : Char) : Bool := c = 'e' || c = 'E'
    let significand := rest.takeWhile fun c => !isMark c
    let exponentPart := rest.dropWhile fun c => !isMark c
    let wholePart := significand.takeWhile (· ≠ '.')
    let fractionPart := significand.dropWhile (· ≠ '.')
    let whole ← decimalDigits? wholePart
    let fraction ←
      match fractionPart with
      -- digits alone are a whole number
      | [] => if exponentPart.isEmpty then none else some []
      | _ :: digits => ungroup? Char.isDigit digits
    let exponent ← readExponent? exponentPart
    Binary64.ofDecimal? negative (valueOf 10 (whole ++ fraction)) (exponent - fraction.length)

/-- The value that a text without quotes spells. -/
def readScalar? (text : List Char) : Option Value :=
  if text = "true".toList then some (.boolean true)
  else if text = "false".toList then some (.boolean false)
  else
    (readInteger? text).map Value.integer
      <|> (readFloat? text).map Value.float
      <|> (Datetime.read? text).map Value.datetime

end Bindery.Toml
