/-!
# Numbers

A number is a binary64 value told apart by what the library asks of it: whether
it is whole, and if so which integer it is. Each value has one form: a whole
value is an `int`, and the two zeros are the same integer. Integers of unlimited
size, which some fields carry instead, are plain `Int`s.
-/

set_option autoImplicit false

-- Powers are those of the core library, whatever else is imported.
attribute [local instance (high)] instPowNat

namespace PeerWire

/-- A binary64 value; negative zero is zero. -/
inductive Number where
  | int (value : Int)
  | fraction (value : Rat) (not_whole : value.den ≠ 1)
  | nan
  | infinity (negative : Bool)
  deriving DecidableEq

namespace Number

instance (n : Nat) : OfNat Number n := ⟨.int n⟩

instance : Inhabited Number := ⟨.int 0⟩

/-- The largest integer below which every integer is a number: `2 ^ 53 - 1`. -/
def maxSafe : Nat := 2 ^ (53 : Nat) - 1

/-- The number of a rational value. -/
def ofRat (value : Rat) : Number :=
  if h : value.den = 1 then .int value.num else .fraction value h

/-- The number with a given binary64 representation: a sign bit, eleven exponent
bits and fifty-two bits of significand. -/
def ofBits (bits : UInt64) : Number :=
  let negative := bits.toNat / 2 ^ (63 : Nat) = 1
  let exponent := bits.toNat / 2 ^ (52 : Nat) % 2 ^ (11 : Nat)
  let significand := bits.toNat % 2 ^ (52 : Nat)
  let signed (magnitude : Nat) : Int := if negative then -(magnitude : Int) else magnitude
  if exponent = 2047 then
    if significand = 0 then .infinity negative else .nan
  else if exponent = 0 then
    ofRat (mkRat (signed significand) (2 ^ (1074 : Nat)))
  else if 1075 ≤ exponent then
    .int (signed ((2 ^ (52 : Nat) + significand) * 2 ^ (exponent - 1075)))
  else
    ofRat (mkRat (signed (2 ^ (52 : Nat) + significand)) (2 ^ (1075 - exponent)))

/-- The integer part, toward zero; a value that is not finite has none and counts
as zero. -/
def truncate : Number → Int
  | .int value => value
  | .fraction value _ => value.num.tdiv value.den
  | .nan | .infinity _ => 0

/-! ## Rounding -/

/-- The natural number of at most fifty-three significant bits that is nearest to
a natural number; of two equally near ones, the one with the even significand. -/
def roundNat (value : Nat) : Nat :=
  let unit := 2 ^ (value.log2 - 52)
  let significand := value / unit
  let rest := value % unit
  if 2 * rest < unit ∨ (2 * rest = unit ∧ significand % 2 = 0) then significand * unit
  else (significand + 1) * unit

/-- Natural numbers up to `2 ^ 53` are numbers as they are. -/
theorem roundNat_of_le {value : Nat} (small : value ≤ 2 ^ (53 : Nat)) : roundNat value = value := by
  by_cases below : value < 2 ^ (53 : Nat)
  · have short : value.log2 - 52 = 0 := by
      by_cases zero : value = 0
      · subst zero
        decide
      · have := (Nat.log2_lt zero).mpr below
        omega
    simp only [roundNat, short, Nat.pow_zero, Nat.mod_one, Nat.div_one, Nat.mul_zero,
      Nat.zero_lt_one, true_or, if_true, Nat.mul_one]
  · have same : value = 2 ^ (53 : Nat) := by omega
    subst same
    decide

/-- Powers of two are numbers as they are. -/
theorem roundNat_two_pow (exponent : Nat) : roundNat (2 ^ exponent) = 2 ^ exponent := by
  have unit : 2 ^ (exponent - 52) ∣ 2 ^ exponent := Nat.pow_dvd_pow 2 (Nat.sub_le exponent 52)
  have positive : 0 < 2 ^ (exponent - 52) := Nat.two_pow_pos _
  simp only [roundNat, Nat.log2_two_pow, Nat.mod_eq_zero_of_dvd unit, Nat.mul_zero, positive,
    true_or, if_true, Nat.div_mul_cancel unit]

/-! ## Ranges -/

/-- Whole and within an unsigned width. -/
def isUnsigned (bits : Nat) : Number → Bool
  | .int value => 0 ≤ value && value < 2 ^ bits
  | _ => false

/-- Whole and within a two's complement width, that is, at least minus half of
`2 ^ bits` and below half of it. -/
def isSigned (bits : Nat) : Number → Bool
  | .int value => -(2 ^ bits) ≤ 2 * value && 2 * value < 2 ^ bits
  | _ => false

/-- Whole and of a magnitude that no other number rounds to. -/
def isSafe : Number → Bool
  | .int value => value.natAbs ≤ maxSafe
  | _ => false

end Number

/-! ## Integers of 64 bits -/

/-- The largest integer of 64 bits without a sign. -/
def maxUnsigned64 : Nat := 2 ^ (64 : Nat) - 1

/-- The smallest integer of 64 bits in two's complement. -/
def minSigned64 : Int := -2 ^ (63 : Nat)

/-- The largest integer of 64 bits in two's complement. -/
def maxSigned64 : Int := 2 ^ (63 : Nat) - 1

/-- Whether an unlimited integer fits 64 unsigned bits. -/
def isUnsigned64 (value : Int) : Bool :=
  0 ≤ value && value ≤ maxUnsigned64

/-- Whether an unlimited integer fits 64 bits in two's complement. -/
def isSigned64 (value : Int) : Bool :=
  minSigned64 ≤ value && value ≤ maxSigned64

end PeerWire
