/-!
# Byte strings and fixed-width integers

A byte string is a list of bytes. A natural number is written in a fixed number
of bytes, in either byte order, by dropping whatever does not fit; an integer is
written by its residue modulo the power of 256 that the width allows, which is
its two's complement form.

Reading gives the residue back (`toNat_ofNat`), a written number has the width
asked for (`length_ofNat`), and a byte string is recovered from the number it
stands for (`ofNat_toNat`). The big-endian form of a number is the reversal of
its little-endian form, so these laws serve both orders.
-/

set_option autoImplicit false

-- Powers are those of the core library, whatever else is imported.
attribute [local instance (high)] instPowNat

namespace PeerWire

/-- A string of bytes, first byte first. -/
abbrev Bytes := List UInt8

/-- Which end of a number comes first on the wire. -/
inductive ByteOrder where
  | little
  | big
  deriving DecidableEq

namespace Bytes

/-! ## Numbers in little-endian order -/

/-- The number whose base-256 digits, least significant first, are the bytes. -/
def toNat : Bytes → Nat
  | [] => 0
  | byte :: rest => byte.toNat + 256 * toNat rest

/-- The `width` low bytes of a number, least significant first. -/
def ofNat : (width : Nat) → (value : Nat) → Bytes
  | 0, _ => []
  | width + 1, value => UInt8.ofNat value :: ofNat width (value / 256)

@[simp] theorem length_ofNat (width value : Nat) : (ofNat width value).length = width := by
  induction width generalizing value with
  | zero => rfl
  | succ width ih => simp only [ofNat, List.length_cons, ih]

/-- Reading a written number gives its residue. -/
theorem toNat_ofNat (width value : Nat) : toNat (ofNat width value) = value % 256 ^ width := by
  induction width generalizing value with
  | zero => simp only [ofNat, toNat, Nat.pow_zero, Nat.mod_one]
  | succ width ih =>
    have low : (UInt8.ofNat value).toNat = value % 256 := by simp
    rw [ofNat, toNat, low, ih, Nat.pow_succ', Nat.mod_mul]

/-- A byte string stands for a number below the power of 256 of its length. -/
theorem toNat_lt (bytes : Bytes) : toNat bytes < 256 ^ bytes.length := by
  induction bytes with
  | nil => simp only [toNat, List.length_nil, Nat.pow_zero, Nat.lt_one_iff]
  | cons byte rest ih =>
    have bound : byte.toNat < 256 := byte.toNat_lt
    rw [toNat, List.length_cons, Nat.pow_succ]
    omega

/-- Writing the number that a byte string stands for gives the byte string. -/
theorem ofNat_toNat (bytes : Bytes) : ofNat bytes.length (toNat bytes) = bytes := by
  induction bytes with
  | nil => rfl
  | cons byte rest ih =>
    have bound : byte.toNat < 256 := byte.toNat_lt
    rw [List.length_cons, ofNat, toNat]
    congr 1
    · apply UInt8.toNat_inj.mp
      rw [UInt8.toNat_ofNat', Nat.add_mul_mod_self_left, Nat.mod_eq_of_lt bound]
    · rw [Nat.add_mul_div_left _ _ (by decide), Nat.div_eq_of_lt bound, Nat.zero_add, ih]

end Bytes

namespace ByteOrder

/-! ## Numbers in either order -/

/-- Turns a little-endian byte string into this order, and back. -/
def arrange : ByteOrder → Bytes → Bytes
  | .little, bytes => bytes
  | .big, bytes => bytes.reverse

/-- The number that a byte string stands for in this order. -/
def read (order : ByteOrder) (bytes : Bytes) : Nat :=
  (order.arrange bytes).toNat

/-- The two's complement reading of a byte string in this order. -/
def readSigned (order : ByteOrder) (bytes : Bytes) : Int :=
  (order.read bytes : Int).bmod (256 ^ bytes.length)

/-- The residue of an integer modulo `256 ^ width`, in this order. -/
def write (order : ByteOrder) (width : Nat) (value : Int) : Bytes :=
  order.arrange (Bytes.ofNat width (value % (256 ^ width : Nat)).toNat)

@[simp] theorem length_arrange (order : ByteOrder) (bytes : Bytes) :
    (order.arrange bytes).length = bytes.length := by
  cases order <;> simp only [arrange, List.length_reverse]

@[simp] theorem arrange_arrange (order : ByteOrder) (bytes : Bytes) :
    order.arrange (order.arrange bytes) = bytes := by
  cases order <;> simp only [arrange, List.reverse_reverse]

@[simp] theorem length_write (order : ByteOrder) (width : Nat) (value : Int) :
    (order.write width value).length = width := by
  simp only [write, length_arrange, Bytes.length_ofNat]

/-- Reading a written integer gives its residue. -/
theorem read_write (order : ByteOrder) (width : Nat) (value : Int) :
    (order.read (order.write width value) : Int) = value % (256 ^ width : Nat) := by
  have positive : (0 : Int) < (256 ^ width : Nat) := by
    exact_mod_cast Nat.pow_pos (by decide)
  have lower := Int.emod_nonneg value (Int.ne_of_gt positive)
  have upper := Int.emod_lt_of_pos value positive
  rw [read, write, arrange_arrange, Bytes.toNat_ofNat, Nat.mod_eq_of_lt (by omega)]
  exact Int.toNat_of_nonneg lower

end ByteOrder

end PeerWire
