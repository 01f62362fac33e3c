import PeerWire.Number.Shortest
import PeerWire.Text.Numeral

/-!
# Numerals of numbers

How a number is shown. In decimal a value is shown by its shortest digits, in
positional form while the point stands within a range and with an exponent
outside it. In hexadecimal a value is shown exactly, fractions included.
-/

set_option autoImplicit false

attribute [local instance (high)] instPowNat

namespace PeerWire

/-- Where positional form ends: the least and the greatest place of the decimal
point, counted from the front of the first digit. -/
structure PositionalRange where
  least : Int
  greatest : Int

namespace Decimal

/-- Lays out a positive decimal: positional form within the range, and otherwise
one digit before the point and an exponent with its sign. -/
def layout (range : PositionalRange) (decimal : Decimal) : Text :=
  let digits := Nat.toDigits 10 decimal.digits
  let count : Int := digits.length
  let point := count + decimal.exponent
  let zeros (amount : Int) := List.replicate amount.toNat '0'
  if count ≤ point ∧ point ≤ range.greatest then
    .ofChars (digits ++ zeros (point - count))
  else if 0 < point ∧ point ≤ range.greatest then
    .ofChars (digits.take point.toNat ++ '.' :: digits.drop point.toNat)
  else if range.least ≤ point ∧ point ≤ 0 then
    .ofChars ('0' :: '.' :: zeros (-point) ++ digits)
  else
    let fraction := if digits.length = 1 then [] else '.' :: digits.drop 1
    let sign := if point - 1 < 0 then '-' else '+'
    .ofChars (digits.take 1 ++ fraction ++ ['e', sign]
      ++ Nat.toDigits 10 (point - 1).natAbs)

end Decimal

namespace Number

/-- Numbers are positional from `0.000001` up to twenty-one digits. -/
def positionalRange : PositionalRange := ⟨-5, 21⟩

/-- The decimal text of a number whose value is a given rational. -/
def finiteToText (value : Rat) : Text :=
  if value = 0 then .ofString "0"
  else
    let shown := (Decimal.shortest (if value < 0 then -value else value)).layout positionalRange
    if value < 0 then .ofString "-" ++ shown else shown

/-- The decimal text of a number. -/
def toText : Number → Text
  | .int value => if value.natAbs ≤ maxSafe then .ofInt value else finiteToText value
  | .fraction value _ => finiteToText value
  | .nan => .ofString "NaN"
  | .infinity negative => .ofString (if negative then "-Infinity" else "Infinity")

/-- The hexadecimal text of a number; the digits after the point are exact. -/
def toHexText : Number → Text
  | .int value => .ofIntBase 16 value
  | .fraction value _ =>
    let whole := value.num.natAbs / value.den
    let places := (value.den.log2 + 3) / 4
    let part := value.num.natAbs % value.den * 16 ^ places / value.den
    let shown := Text.concat
      [.ofNatHex whole, .ofString ".", Text.padZeros places (.ofNatHex part)]
    if value.num < 0 then .ofString "-" ++ shown else shown
  | .nan => .ofString "NaN"
  | .infinity negative => .ofString (if negative then "-Infinity" else "Infinity")

end Number

end PeerWire
