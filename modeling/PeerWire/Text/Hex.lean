import PeerWire.Bytes
import PeerWire.Text

/-!
# Hexadecimal texts of byte strings

Bytes are written by two lower case digits each. Reading accepts either case and
an even number of digits, behind at most one marker `0x` or `0X`.
-/

set_option autoImplicit false

namespace PeerWire

/-- Why a text is no hexadecimal form of a byte string. -/
inductive HexProblem where
  | oddLength
  | badCharacter
  deriving DecidableEq

namespace Text

/-- The digit of a value below sixteen, as a code unit. -/
def hexDigit (value : Nat) : UInt16 :=
  UInt16.ofNat (if value < 10 then 0x30 + value else 0x57 + value)

/-- The value of a hexadecimal digit in either case. -/
def hexValue? (unit : UInt16) : Option Nat :=
  if 0x30 ≤ unit ∧ unit ≤ 0x39 then some (unit.toNat - 0x30)
  else if 0x61 ≤ unit ∧ unit ≤ 0x66 then some (unit.toNat - 0x57)
  else if 0x41 ≤ unit ∧ unit ≤ 0x46 then some (unit.toNat - 0x37)
  else none

/-- Whether a text is an even number of hexadecimal digits. -/
def isHex (text : Text) : Bool :=
  text.length % 2 = 0 && text.units.all fun unit => (hexValue? unit).isSome

/-- A text without a leading `0x` or `0X`; at most one is dropped. -/
def dropHexMarker (text : Text) : Text :=
  match text.units with
  | 0x30 :: 0x78 :: rest => ⟨rest⟩
  | 0x30 :: 0x58 :: rest => ⟨rest⟩
  | units => ⟨units⟩

/-- Joins digit values by pairs, behind the bytes read so far in reverse. -/
def joinDigits (done : Bytes) : List Nat → Bytes
  | high :: low :: rest => joinDigits (UInt8.ofNat (16 * high + low) :: done) rest
  | _ => done.reverse

end Text

namespace Bytes

/-- The two digits of a byte, high half first. -/
def hexPair (byte : UInt8) : List UInt16 :=
  [Text.hexDigit (byte.toNat / 16), Text.hexDigit (byte.toNat % 16)]

/-- The hexadecimal text of a byte string. -/
def toHex (bytes : Bytes) : Text :=
  ⟨bytes.flatMap hexPair⟩

/-- The byte string of a hexadecimal text. -/
def ofHex (text : Text) : Except HexProblem Bytes :=
  let digits := text.dropHexMarker
  if digits.isHex then
    .ok (Text.joinDigits [] (digits.units.filterMap Text.hexValue?))
  else if digits.length % 2 = 0 then .error .badCharacter
  else .error .oddLength

end Bytes

end PeerWire
