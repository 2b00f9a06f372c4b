/-!
# Binary floating-point numbers

A 64-bit floating-point number is kept as its bits. Decimal numbers are read to the nearest of them,
and a finite one can be rounded to a whole number; both are done in exact arithmetic, and of two
equally near results the even one is taken.
-/

namespace Bindery

/-- A 64-bit floating-point number. -/
structure Binary64 where
  bits : UInt64
deriving DecidableEq, Repr, Inhabited

/-- The whole number nearest to a quotient; of two equally near ones the even one. -/
def roundQuotient (numerator denominator : Nat) : Nat :=
  let quotient := numerator / denominator
  let twiceRest := 2 * (numerator % denominator)
  if twiceRest < denominator || (twiceRest = denominator && quotient % 2 = 0) then quotient
  else quotient + 1

namespace Binary64

-- powers are those of the core library, whatever else is imported
attribute [local instance (2000)] instPowNat

def signWeight : Nat := 2 ^ (63 : Nat)

/-- What the finite numbers and infinity are told apart by: the bits of positive infinity. -/
def infinityBits : Nat := 2047 * 2 ^ (52 : Nat)

def isNegative (x : Binary64) : Bool := signWeight ≤ x.bits.toNat

def magnitudeBits (x : Binary64) : Nat := x.bits.toNat % signWeight

def isNaN (x : Binary64) : Bool := infinityBits < x.magnitudeBits

def isInfinite (x : Binary64) : Bool := x.magnitudeBits = infinityBits

/-- The mantissa `m` and exponent `q` of a finite number of magnitude `m * 2 ^ q`. -/
def mantissa (x : Binary64) : Nat × Int :=
  let field : Nat := x.magnitudeBits / 2 ^ (52 : Nat)
  let fraction : Nat := x.magnitudeBits % 2 ^ (52 : Nat)
  if field = 0 then (fraction, -1074) else (fraction + 2 ^ (52 : Nat), (field : Int) - 1075)

/-- The number with the given sign and magnitude bits. -/
def ofMagnitude (negative : Bool) (magnitude : Nat) : Binary64 :=
  ⟨UInt64.ofNat (magnitude + if negative then signWeight else 0)⟩

def infinity (negative : Bool) : Binary64 := ofMagnitude negative infinityBits

def nan : Binary64 := ofMagnitude false (infinityBits + 2 ^ (51 : Nat))

/-- The greatest `e` with `2 ^ e * denominator ≤ numerator`, for two positive numbers. -/
def floorLog2 (numerator denominator : Nat) : Int :=
  let estimate : Int := (numerator.log2 : Int) - (denominator.log2 : Int)
  let reached :=
    if 0 ≤ estimate then denominator * 2 ^ estimate.toNat ≤ numerator
    else denominator ≤ numerator * 2 ^ (-estimate).toNat
  if reached then estimate else estimate - 1

/-- The magnitude bits of the number nearest to a positive quotient. -/
def nearestMagnitude (numerator denominator : Nat) : Nat :=
  let q := max (floorLog2 numerator denominator - 52) (-1074)
  let m :=
    if 0 ≤ q then roundQuotient numerator (denominator * 2 ^ q.toNat)
    else roundQuotient (numerator * 2 ^ (-q).toNat) denominator
  (q + 1074).toNat * 2 ^ (52 : Nat) + m

/-- The number nearest to `digits * 10 ^ exponent`, unless that is too great to be finite. Decimals
beyond the range of all numbers are recognized by their order of magnitude. -/
def ofDecimal? (negative : Bool) (digits : Nat) (exponent : Int) : Option Binary64 :=
  let order : Int := exponent + ((Nat.toDigits 10 digits).length : Int)
  if digits = 0 || order < -400 then some (ofMagnitude negative 0)
  else if 400 < order then none
  else
    let magnitude :=
      if 0 ≤ exponent then nearestMagnitude (digits * 10 ^ exponent.toNat) 1
      else nearestMagnitude digits (10 ^ (-exponent).toNat)
    if magnitude < infinityBits then some (ofMagnitude negative magnitude) else none

/-- The magnitude of a finite number, rounded to a whole number. -/
def roundedMagnitude (x : Binary64) : Nat :=
  let (m, q) := x.mantissa
  if 0 ≤ q then m * 2 ^ q.toNat else roundQuotient m (2 ^ (-q).toNat)

/-- The number rounded to a whole one, written out in full. The sign is kept also of zero. -/
def wholeText (x : Binary64) : String :=
  if x.isNaN then "NaN"
  else
    (if x.isNegative then "-" else "")
      ++ if x.isInfinite then "inf" else toString x.roundedMagnitude

end Binary64

end Bindery
