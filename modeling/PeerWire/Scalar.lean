import PeerWire.Bytes
import PeerWire.Number
import PeerWire.Text.Hex

/-!
# Scalars

A scalar is a value of a type that is not known in advance, as it comes from
outside the library. Guards tell whether a scalar is a value of a given domain;
a number and an integer of unlimited size are never the same scalar.
-/

set_option autoImplicit false

namespace PeerWire

/-- A value of any type that the library deals in. -/
inductive Scalar where
  | number (value : Number)
  | integer (value : Int)
  | text (value : Text)
  | bytes (value : Bytes)
  | truth (value : Bool)
  | absent
  deriving DecidableEq

namespace Scalar

/-- A number that is whole and fits an unsigned width. -/
def isUnsigned (bits : Nat) : Scalar → Bool
  | .number value => value.isUnsigned bits
  | _ => false

/-- A number that is whole and fits a two's complement width. -/
def isSigned (bits : Nat) : Scalar → Bool
  | .number value => value.isSigned bits
  | _ => false

/-- An unlimited integer that fits 64 unsigned bits. -/
def isUnsigned64 : Scalar → Bool
  | .integer value => PeerWire.isUnsigned64 value
  | _ => false

/-- An unlimited integer that fits 64 bits in two's complement. -/
def isSigned64 : Scalar → Bool
  | .integer value => PeerWire.isSigned64 value
  | _ => false

/-- A byte string whose length is a given number. -/
def isBytesOfLength (length : Number) : Scalar → Bool
  | .bytes value => .int value.length = length
  | _ => false

/-- A text of an even number of hexadecimal digits. -/
def isHex : Scalar → Bool
  | .text value => value.isHex
  | _ => false

/-- The position in a buffer of a given size that a scalar stands for. -/
def position? (size : Nat) : Scalar → Option Nat
  | .number (.int value) => if 0 ≤ value ∧ value ≤ size then some value.toNat else none
  | _ => none

theorem le_of_position? {size position : Nat} {scalar : Scalar}
    (found : scalar.position? size = some position) : position ≤ size := by
  unfold position? at found
  split at found
  · split at found
    · next bounds =>
      obtain rfl := Option.some.inj found
      omega
    · cases found
  · cases found

theorem position?_int {size position : Nat} (within : position ≤ size) :
    position? size (.number (.int position)) = some position := by
  rw [position?, if_pos ⟨Int.natCast_nonneg position, Int.ofNat_le.mpr within⟩, Int.toNat_natCast]

end Scalar

end PeerWire
