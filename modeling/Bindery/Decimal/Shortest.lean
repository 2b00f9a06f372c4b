import Bindery.Decimal.Binary64

/-!
# Shortest decimals

The shortest decimal that reads back to the same floating-point number. The numbers that read back
form an interval around it. On each grid of decimals with one more digit the two neighbours of the
number are tried; the first grid on which one lies in the interval has the shortest decimals, and the
nearer neighbour is the closest of them.
-/

namespace Bindery.Binary64

-- powers are those of the core library, whatever else is imported
attribute [local instance (2000)] instPowNat

/-- A positive decimal `digits * 10 ^ exponent`. -/
structure Decimal where
  digits : Nat
  exponent : Int
deriving DecidableEq, Repr

/-- The decimals that read back to a number of magnitude `m * 2 ^ q`: those between `low` and `high`
quarters of `2 ^ q`, and the ends themselves when `m` is even. -/
structure Interval where
  quarters : Nat
  low : Nat
  high : Nat
  closed : Bool

/-- The interval around a positive finite number. Below a power of two the numbers lie closer. -/
def interval (m : Nat) (q : Int) : Interval :=
  { quarters := 4 * m
    -- numbers below a power of two lie twice as close
    low := if m = 2 ^ (52 : Nat) && q ≠ -1074 then 4 * m - 1 else 4 * m - 2
    high := 4 * m + 2
    closed := m % 2 = 0 }

/-- The neighbour of the number on the grid of multiples of `10 ^ exponent` that lies in the
interval; of two the nearer, and of two equally near the even one. -/
def Interval.onGrid? (range : Interval) (q exponent : Int) : Option Nat :=
  let unit := 2 ^ (q - 2).toNat * 10 ^ (-exponent).toNat
  let cell := 2 ^ (2 - q).toNat * 10 ^ exponent.toNat
  let value := range.quarters * unit
  let inside (n : Nat) : Bool :=
    if range.closed then range.low * unit ≤ n * cell && n * cell ≤ range.high * unit
    else range.low * unit < n * cell && n * cell < range.high * unit
  let below := value / cell
  let twiceRest := 2 * (value % cell)
  -- a neighbour outside of the interval is read back as another number
  match inside below, inside (below + 1) with
  | false, false => none
  | true, false => some below
  | false, true => some (below + 1)
  | true, true =>
      if twiceRest < cell || (twiceRest = cell && below % 2 = 0) then some below
      else some (below + 1)

/-- A decimal without the zeros at the end of its digits. -/
def Decimal.normalize (decimal : Decimal) : Decimal :=
  if h : decimal.digits ≠ 0 ∧ decimal.digits % 10 = 0 then
    normalize ⟨decimal.digits / 10, decimal.exponent + 1⟩
  else decimal
termination_by decimal.digits
decreasing_by omega

/-- The shortest decimal that reads back to the positive finite number `m * 2 ^ q`. Twenty grids,
from one above the number's order of magnitude on, are more than any number needs. -/
def shortestOf (m : Nat) (q : Int) : Decimal :=
  let range := interval m q
  let top := ((m.log2 : Int) + q) * 30103 / 100000 + 2
  let found := (List.range 22).findSome? fun (step : Nat) =>
    let exponent := top - (step : Int)
    (range.onGrid? q exponent).map fun digits => (⟨digits, exponent⟩ : Decimal)
  (found.getD ⟨m, 0⟩).normalize

/-- The shortest decimal that reads back to a finite number other than zero. -/
def shortest (x : Binary64) : Decimal :=
  let (m, q) := x.mantissa
  shortestOf m q

end Bindery.Binary64
