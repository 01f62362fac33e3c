import PeerWire.Number

/-!
# Shortest decimals

The decimal that a binary64 value is shown by: among the decimals that round to
the value, one with the fewest digits, and of those the nearest. The reals that
round to a value form an interval, which holds its ends exactly when the value's
significand is even. Decimals with few digits are the points of a coarse grid, so
the coarsest grid of powers of ten that meets the interval has the fewest digits,
and if it meets the interval then it does so beside the value.
-/

set_option autoImplicit false

attribute [local instance (high)] instPowNat Rat.instPowInt

namespace PeerWire

/-- The decimal `digits * 10 ^ exponent`. -/
structure Decimal where
  digits : Nat
  exponent : Int
  deriving DecidableEq

namespace Decimal

/-- The rational value of a decimal. -/
def toRat (decimal : Decimal) : Rat :=
  if 0 ≤ decimal.exponent then ((decimal.digits * 10 ^ decimal.exponent.toNat : Nat) : Rat)
  else mkRat decimal.digits (10 ^ (-decimal.exponent).toNat)

end Decimal

/-- The reals that round to a positive binary64 value. -/
structure RoundingInterval where
  lower : Rat
  upper : Rat
  closed : Bool

namespace RoundingInterval

/-- Whether a rational rounds to the value. -/
def contains (interval : RoundingInterval) (value : Rat) : Bool :=
  (interval.lower < value && value < interval.upper)
    || (interval.closed && (value = interval.lower || value = interval.upper))

/-- The greatest exponent of two that is at most a positive rational's binary
logarithm. -/
def binade (value : Rat) : Int :=
  let guess := (value.num.natAbs.log2 : Int) - (value.den.log2 : Int)
  if value < (2 : Rat) ^ guess then guess - 1 else guess

/-- The interval of a positive value: half a unit in its last place to either
side, except that the gap below a power of two is half as wide. -/
def ofValue (value : Rat) : RoundingInterval :=
  let unit := max (binade value - 52) (-1074)
  let significand := (value / (2 : Rat) ^ unit).num.natAbs
  let below := if significand = 2 ^ (52 : Nat) ∧ -1074 < unit then unit - 2 else unit - 1
  { lower := value - (2 : Rat) ^ below
    upper := value + (2 : Rat) ^ (unit - 1)
    closed := significand % 2 = 0 }

/-- The point of the grid of one power of ten that lies in the interval nearest
to the value, if any does. Of two equally near points the even one is taken. -/
def gridPoint? (interval : RoundingInterval) (value : Rat) (exponent : Int) : Option Decimal :=
  let scaled := value / (10 : Rat) ^ exponent
  let floor : Decimal := ⟨scaled.floor.natAbs, exponent⟩
  let ceil : Decimal := ⟨scaled.floor.natAbs + 1, exponent⟩
  match interval.contains floor.toRat, interval.contains ceil.toRat with
  | true, true =>
    let twice := 2 * scaled
    let sum := ((floor.digits + ceil.digits : Nat) : Rat)
    if twice < sum ∨ (twice = sum ∧ floor.digits % 2 = 0) then some floor else some ceil
  | true, false => some floor
  | false, true => some ceil
  | false, false => none

end RoundingInterval

namespace Decimal

/-- The exponents of ten to try, coarsest first: from above the value down to
the exponent of the least positive value. -/
def exponents (value : Rat) : List Int :=
  let top := (Nat.toDigits 10 value.floor.natAbs).length
  (List.range (top + 325)).map fun (step : Nat) => (top : Int) - step

/-- The shortest decimal of a positive binary64 value. -/
def shortest (value : Rat) : Decimal :=
  let interval := RoundingInterval.ofValue value
  ((exponents value).findSome? (interval.gridPoint? value)).getD ⟨value.floor.natAbs, 0⟩

end Decimal

end PeerWire
