import PeerWire.Text

/-!
# Numerals

Decimal and hexadecimal numerals of natural numbers and integers. Hexadecimal
digits are lower case; a negative number has a leading minus sign.
-/

set_option autoImplicit false

namespace PeerWire

namespace Text

/-- The numeral of a natural number in a base up to sixteen. -/
def ofNatBase (base value : Nat) : Text :=
  ofChars (Nat.toDigits base value)

/-- The numeral of an integer in a base up to sixteen. -/
def ofIntBase (base : Nat) (value : Int) : Text :=
  if value < 0 then ofString "-" ++ ofNatBase base value.natAbs
  else ofNatBase base value.natAbs

/-- The decimal numeral of a natural number. -/
def ofNat (value : Nat) : Text :=
  ofNatBase 10 value

/-- The decimal numeral of an integer. -/
def ofInt (value : Int) : Text :=
  ofIntBase 10 value

/-- The hexadecimal numeral of a natural number. -/
def ofNatHex (value : Nat) : Text :=
  ofNatBase 16 value

/-- Fills a numeral up to a width with zeros in front. -/
def padZeros (width : Nat) (text : Text) : Text :=
  ⟨List.replicate (width - text.length) 0x30⟩ ++ text

end Text

end PeerWire
