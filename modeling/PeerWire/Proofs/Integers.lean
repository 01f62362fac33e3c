import PeerWire.Bytes
import PeerWire.Number

/-!
# Integers and their bytes

The bytes of an integer that fits a width give it back, and the integer of bytes is
written as these bytes: with a sign and without one, in either order. The guards on
numbers name exactly the integers for which this holds.
-/

set_option autoImplicit false

attribute [local instance (high)] instPowNat

namespace PeerWire

namespace ByteOrder

theorem read_lt (order : ByteOrder) (bytes : Bytes) : order.read bytes < 256 ^ bytes.length := by
  have bound := Bytes.toNat_lt (order.arrange bytes)
  rwa [length_arrange] at bound

/-- Writing depends on an integer's residue only. -/
theorem write_emod (order : ByteOrder) (width : Nat) (value : Int) :
    order.write width (value % (256 ^ width : Nat)) = order.write width value := by
  rw [write, write, Int.emod_emod]

/-- The number of bytes is written as the bytes. -/
theorem write_read (order : ByteOrder) (bytes : Bytes) :
    order.write bytes.length (order.read bytes) = bytes := by
  have residue : ((order.read bytes : Int) % (256 ^ bytes.length : Nat)).toNat
      = order.read bytes := by
    rw [← Int.natCast_emod, Nat.mod_eq_of_lt (order.read_lt bytes), Int.toNat_natCast]
  have digits := Bytes.ofNat_toNat (order.arrange bytes)
  rw [length_arrange] at digits
  rw [write, residue, read, digits, arrange_arrange]

/-- The two's complement integer of bytes is written as the bytes. -/
theorem write_readSigned (order : ByteOrder) (bytes : Bytes) :
    order.write bytes.length (order.readSigned bytes) = bytes := by
  rw [← write_emod, readSigned, Int.bmod_emod, write_emod, write_read]

/-- An integer without sign that fits the width is read back. -/
theorem read_write_of_lt {order : ByteOrder} {width : Nat} {value : Int} (lower : 0 ≤ value)
    (upper : value < (256 ^ width : Nat)) :
    (order.read (order.write width value) : Int) = value := by
  rw [read_write, Int.emod_eq_of_lt lower upper]

/-- An integer in two's complement that fits the width is read back. -/
theorem readSigned_write {order : ByteOrder} {width : Nat} {value : Int}
    (lower : -(256 ^ width : Nat) ≤ 2 * value) (upper : 2 * value < (256 ^ width : Nat)) :
    order.readSigned (order.write width value) = value := by
  have positive : 0 < 256 ^ width := Nat.pow_pos (by decide)
  rw [readSigned, read_write, length_write, Int.emod_bmod, Int.bmod_eq_iff positive, Int.sub_self]
  exact ⟨by omega, by omega, Int.dvd_zero _⟩

/-- Bytes are never read as an integer outside their width. -/
theorem readSigned_bounds (order : ByteOrder) (bytes : Bytes) :
    -(256 ^ bytes.length : Nat) ≤ 2 * order.readSigned bytes
      ∧ 2 * order.readSigned bytes < (256 ^ bytes.length : Nat) := by
  have positive : 0 < 256 ^ bytes.length := Nat.pow_pos (by decide)
  have lower := Int.le_bmod (x := order.read bytes) positive
  have upper := Int.bmod_lt (x := order.read bytes) positive
  rw [← readSigned] at lower upper
  exact ⟨by omega, by omega⟩

end ByteOrder

/-! ## Ranges -/

namespace Number

/-- A width in bits and the same width in bytes. -/
theorem two_pow_eight_mul (width : Nat) : (2 : Int) ^ (8 * width) = (256 ^ width : Nat) := by
  rw [Int.pow_mul, Int.natCast_pow]
  rfl

theorem isUnsigned_iff {width : Nat} {number : Number} :
    number.isUnsigned (8 * width) = true
      ↔ ∃ value : Int, number = .int value ∧ 0 ≤ value ∧ value < (256 ^ width : Nat) := by
  cases number with
  | int value =>
    rw [isUnsigned, two_pow_eight_mul, Bool.and_eq_true, decide_eq_true_eq, decide_eq_true_eq]
    constructor
    · exact fun bounds => ⟨value, rfl, bounds⟩
    · rintro ⟨_, ⟨⟩, bounds⟩
      exact bounds
  | fraction | nan | infinity =>
    constructor
    · exact fun impossible => by cases impossible
    · rintro ⟨_, ⟨⟩, _⟩

theorem isSigned_iff {width : Nat} {number : Number} :
    number.isSigned (8 * width) = true
      ↔ ∃ value : Int, number = .int value
          ∧ -(256 ^ width : Nat) ≤ 2 * value ∧ 2 * value < (256 ^ width : Nat) := by
  cases number with
  | int value =>
    rw [isSigned, two_pow_eight_mul, Bool.and_eq_true, decide_eq_true_eq, decide_eq_true_eq]
    constructor
    · exact fun bounds => ⟨value, rfl, bounds⟩
    · rintro ⟨_, ⟨⟩, bounds⟩
      exact bounds
  | fraction | nan | infinity =>
    constructor
    · exact fun impossible => by cases impossible
    · rintro ⟨_, ⟨⟩, _⟩

end Number

theorem isUnsigned64_iff {value : Int} :
    isUnsigned64 value = true ↔ 0 ≤ value ∧ value < (256 ^ (8 : Nat) : Nat) := by
  rw [isUnsigned64, maxUnsigned64, Bool.and_eq_true, decide_eq_true_eq, decide_eq_true_eq]
  omega

theorem isSigned64_iff {value : Int} :
    isSigned64 value = true
      ↔ -(256 ^ (8 : Nat) : Nat) ≤ 2 * value ∧ 2 * value < (256 ^ (8 : Nat) : Nat) := by
  rw [isSigned64, minSigned64, maxSigned64, Bool.and_eq_true, decide_eq_true_eq,
    decide_eq_true_eq]
  omega

end PeerWire
