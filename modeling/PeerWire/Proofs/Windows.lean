import PeerWire.Session
import PeerWire.Window
import PeerWire.Proofs.Domains

/-!
# Access through windows

A write puts the bytes of an integer in place of those that it covers. Everything there is to
know of it follows from that: how many bytes there are stays the same, those outside are as they
were (`Bytes.getElem?_patch_of_outside`), those inside are what was written
(`Bytes.take_drop_patch`), and two writes that cover no common byte can change places
(`Bytes.patch_comm`). An access within the window is within the backing bytes, wherever the
window starts (`Window.place?_of_within`), so that no access of this kind fails.

What a field is read as depends on its bytes alone. An integer is read back as its residue, or
as the integer in two's complement that has the same residue; both are the integer itself exactly
if the guard for the width lets it pass. The two orders are reversals of each other.

The values that are written on their own are guarded first. The guards let pass what can be
read, and nothing else (`access_exact`).
-/

set_option autoImplicit false

attribute [local instance (high)] instPowNat

namespace PeerWire

/-! ## Bytes in place of others -/

namespace Bytes

/-- Bytes with a field in place of as many of them, from a place on. -/
def patch (backing : Bytes) (place : Nat) (field : Bytes) : Bytes :=
  backing.take place ++ field ++ backing.drop (place + field.length)

section Patch

variable {backing field : Bytes} {place : Nat}

theorem length_patch (fits : place + field.length ≤ backing.length) :
    (backing.patch place field).length = backing.length := by
  rw [patch, List.length_append, List.length_append, List.length_take, List.length_drop]
  omega

theorem getElem?_patch_of_inside (fits : place + field.length ≤ backing.length) {index : Nat}
    (inside : index < field.length) :
    (backing.patch place field)[place + index]? = field[index]? := by
  have front : (backing.take place).length = place := List.length_take_of_le (by omega)
  rw [patch, List.append_assoc, List.getElem?_append_right (by omega), front,
    Nat.add_sub_cancel_left, List.getElem?_append_left inside]

theorem getElem?_patch_of_outside (fits : place + field.length ≤ backing.length) {index : Nat}
    (outside : index < place ∨ place + field.length ≤ index) :
    (backing.patch place field)[index]? = backing[index]? := by
  have front : (backing.take place).length = place := List.length_take_of_le (by omega)
  rcases outside with before | behind
  · rw [patch, List.append_assoc, List.getElem?_append_left (by omega), List.getElem?_take,
      if_pos before]
  · rw [patch, List.getElem?_append_right (by rw [List.length_append]; omega), List.length_append,
      front, List.getElem?_drop]
    congr 1
    omega

/-- What was put in a place is there. -/
theorem take_drop_patch (fits : place + field.length ≤ backing.length) :
    ((backing.patch place field).drop place).take field.length = field := by
  have front : (backing.take place).length = place := List.length_take_of_le (by omega)
  rw [patch, List.append_assoc, List.drop_append_of_le_length (by omega), List.drop_of_length_le
    (by omega), List.nil_append, List.take_left]

/-- Fields that cover no common place can be put in either order: each byte is what the field
that covers it says, or as it was. -/
theorem patch_comm {other : Bytes} {there : Nat} (fits : place + field.length ≤ backing.length)
    (fitsThere : there + other.length ≤ backing.length)
    (apart : place + field.length ≤ there ∨ there + other.length ≤ place) :
    (backing.patch place field).patch there other
      = (backing.patch there other).patch place field := by
  have length := length_patch fits
  have lengthThere := length_patch fitsThere
  refine List.ext_getElem? fun index => ?_
  by_cases inside : place ≤ index ∧ index < place + field.length
  · obtain ⟨offset, rfl⟩ := Nat.exists_eq_add_of_le inside.1
    rw [getElem?_patch_of_outside (by omega) (by omega), getElem?_patch_of_inside fits (by omega),
      getElem?_patch_of_inside (by omega) (by omega)]
  · have kept : ((backing.patch there other).patch place field)[index]?
        = (backing.patch there other)[index]? :=
      getElem?_patch_of_outside (by omega) (by omega)
    rw [kept]
    by_cases covered : there ≤ index ∧ index < there + other.length
    · obtain ⟨offset, rfl⟩ := Nat.exists_eq_add_of_le covered.1
      rw [getElem?_patch_of_inside (by omega) (by omega),
        getElem?_patch_of_inside fitsThere (by omega)]
    · rw [getElem?_patch_of_outside (by omega) (by omega),
        getElem?_patch_of_outside fits (by omega), getElem?_patch_of_outside fitsThere (by omega)]

end Patch

end Bytes

/-! ## Integers as they are stored -/

namespace ByteOrder

/-- The two orders store an integer in reverse of each other. -/
theorem write_big (width : Nat) (value : Int) :
    big.write width value = (little.write width value).reverse := rfl

/-- What was written is read as the integer in two's complement that has the same residue. -/
theorem readSigned_write_emod (order : ByteOrder) (width : Nat) (value : Int) :
    order.readSigned (order.write width value) % (256 ^ width : Nat)
      = value % (256 ^ width : Nat) := by
  rw [readSigned, read_write, length_write, Int.emod_bmod, Int.bmod_emod]

/-- An integer without a sign is read back as it is exactly if it fits the width. -/
theorem read_write_eq_self_iff (order : ByteOrder) {width : Nat} {value : Int} :
    (order.read (order.write width value) : Int) = value
      ↔ 0 ≤ value ∧ value < (256 ^ width : Nat) := by
  constructor
  · intro same
    have bound := order.read_lt (order.write width value)
    rw [length_write] at bound
    rw [← same]
    exact ⟨Int.natCast_nonneg _, Int.ofNat_lt.mpr bound⟩
  · rintro ⟨lower, upper⟩
    exact read_write_of_lt lower upper

/-- So is an integer in two's complement. -/
theorem readSigned_write_eq_self_iff (order : ByteOrder) {width : Nat} {value : Int} :
    order.readSigned (order.write width value) = value
      ↔ -(256 ^ width : Nat) ≤ 2 * value ∧ 2 * value < (256 ^ width : Nat) := by
  constructor
  · intro same
    have bounds := order.readSigned_bounds (order.write width value)
    rwa [length_write, same] at bounds
  · rintro ⟨lower, upper⟩
    exact readSigned_write lower upper

end ByteOrder

namespace Number

/-- The guard for integers without a sign. -/
theorem isUnsigned_int_iff {width : Nat} {value : Int} :
    (Number.int value).isUnsigned (8 * width) = true
      ↔ 0 ≤ value ∧ value < (256 ^ width : Nat) := by
  rw [isUnsigned, two_pow_eight_mul, Bool.and_eq_true, decide_eq_true_eq, decide_eq_true_eq]

/-- The guard for integers in two's complement. -/
theorem isSigned_int_iff {width : Nat} {value : Int} :
    (Number.int value).isSigned (8 * width) = true
      ↔ -(256 ^ width : Nat) ≤ 2 * value ∧ 2 * value < (256 ^ width : Nat) := by
  rw [isSigned, two_pow_eight_mul, Bool.and_eq_true, decide_eq_true_eq, decide_eq_true_eq]

end Number

namespace IntLayout

/-- The scalar by which an integer is handed to a layout. -/
def scalar (layout : IntLayout) (value : Int) : Scalar :=
  if layout.width < 8 then .number (.int value) else .integer value

theorem integer?_scalar (layout : IntLayout) (value : Int) :
    layout.integer? (layout.scalar value) = some value := by
  rw [scalar]
  split
  · next narrow => rw [integer?, if_pos narrow, Number.truncate]
  · next wide => rw [integer?, if_neg wide]

/-- The same layout with or without a sign. -/
def withSign (layout : IntLayout) (signed : Bool) : IntLayout :=
  { layout with signed }

/-- The same layout in a given order. -/
def inOrder (layout : IntLayout) (order : ByteOrder) : IntLayout :=
  { layout with order }

end IntLayout

/-! ## Places -/

namespace Window

/-- The backing bytes hold the window. -/
def IsHeld (window : Window) : Prop :=
  window.start + window.length ≤ window.backing.length

/-- The bytes of an access. -/
def field (window : Window) (width offset : Nat) : Bytes :=
  (window.backing.drop (window.start + offset)).take width

/-- The window with a field at an offset. -/
def patched (window : Window) (offset : Nat) (field : Bytes) : Window :=
  { window with backing := window.backing.patch (window.start + offset) field }

section Access

variable {window : Window} (held : window.IsHeld)
include held

/-- An access within the window has a place in the backing bytes. -/
theorem place?_of_within {width offset : Nat} (within : offset + width ≤ window.length) :
    window.place? width offset = some (window.start + offset) := by
  rw [IsHeld] at held
  rw [place?, if_pos ⟨by omega, by omega⟩, ← Int.natCast_add, Int.toNat_natCast]

theorem le_backing_of_within {width offset : Nat} (within : offset + width ≤ window.length) :
    window.start + offset + width ≤ window.backing.length := by
  rw [IsHeld] at held
  omega

theorem isHeld_patched {offset : Nat} {field : Bytes}
    (within : offset + field.length ≤ window.length) : (window.patched offset field).IsHeld := by
  have size := Bytes.length_patch (le_backing_of_within held within)
  rw [IsHeld] at held ⊢
  rw [← size] at held
  exact held

theorem field_patched {offset : Nat} {field : Bytes}
    (within : offset + field.length ≤ window.length) :
    (window.patched offset field).field field.length offset = field :=
  Bytes.take_drop_patch (le_backing_of_within held within)

theorem patched_comm {offset there : Nat} {field other : Bytes}
    (within : offset + field.length ≤ window.length)
    (withinThere : there + other.length ≤ window.length)
    (apart : offset + field.length ≤ there ∨ there + other.length ≤ offset) :
    (window.patched offset field).patched there other
      = (window.patched there other).patched offset field := by
  have swapped := Bytes.patch_comm (le_backing_of_within held within)
    (le_backing_of_within held withinThere) (by omega)
  exact congrArg (fun backing => { window with backing }) swapped

variable (layout : IntLayout) {offset : Nat} (within : offset + layout.width ≤ window.length)
include within

/-- Writing puts the bytes of the integer in place, and ends behind them. -/
theorem writeScalar_eq (value : Int) :
    window.writeScalar layout offset (layout.scalar value)
      = .ok (window.patched offset (layout.order.write layout.width value),
          offset + layout.width) := by
  have stored : window.writeScalar layout offset (layout.scalar value)
      = window.write layout offset value := by
    rw [writeScalar, layout.integer?_scalar]
  rw [stored, write, place?_of_within held within, patched, Bytes.patch, ByteOrder.length_write]

/-- Reading is reading the bytes of the access. -/
theorem read_eq :
    window.read layout offset
      = .ok (if layout.signed then layout.order.readSigned (window.field layout.width offset)
          else layout.order.read (window.field layout.width offset)) := by
  rw [read, place?_of_within held within]
  rfl

end Access

/-! ## What a write comes to -/

/-- What is to be said of an integer written at an offset of a window, and the window
afterwards. -/
structure Wrote (window : Window) (layout : IntLayout) (offset : Nat) (value : Int)
    (after : Window) : Prop where
  /-- The offset behind the integer is returned. -/
  returned : window.writeScalar layout offset (layout.scalar value)
    = .ok (after, offset + layout.width)
  start : after.start = window.start
  length : after.length = window.length
  size : after.backing.length = window.backing.length
  /-- No byte changes that the integer does not cover. -/
  framed : ∀ index, index < window.start + offset ∨ window.start + offset + layout.width ≤ index →
    after.backing[index]? = window.backing[index]?
  unsigned : after.read (layout.withSign false) offset = .ok (value % 2 ^ (8 * layout.width))
  signed : ∃ represented, after.read (layout.withSign true) offset = .ok represented
    ∧ -(2 ^ (8 * layout.width)) ≤ 2 * represented ∧ 2 * represented < 2 ^ (8 * layout.width)
    ∧ represented % 2 ^ (8 * layout.width) = value % 2 ^ (8 * layout.width)
  /-- The guards let pass exactly the integers that are read back as they are. -/
  guardUnsigned : (Number.int value).isUnsigned (8 * layout.width) = true
    ↔ after.read (layout.withSign false) offset = .ok value
  guardSigned : (Number.int value).isSigned (8 * layout.width) = true
    ↔ after.read (layout.withSign true) offset = .ok value
  /-- The two orders store the bytes in reverse of each other. -/
  mirrored : ∃ little big,
    window.writeScalar (layout.inOrder .little) offset (layout.scalar value)
        = .ok (little, offset + layout.width)
      ∧ window.writeScalar (layout.inOrder .big) offset (layout.scalar value)
        = .ok (big, offset + layout.width)
      ∧ big.field layout.width offset = (little.field layout.width offset).reverse
  /-- Integers that cover no common byte come to the same in either order of writing. -/
  commutes : ∀ (other : IntLayout) (there : Nat) (another : Int),
    there + other.width ≤ window.length →
      offset + layout.width ≤ there ∨ there + other.width ≤ offset →
      ∃ instead both,
        window.writeScalar other there (other.scalar another) = .ok (instead, there + other.width)
          ∧ instead.writeScalar layout offset (layout.scalar value)
            = .ok (both, offset + layout.width)
          ∧ after.writeScalar other there (other.scalar another) = .ok (both, there + other.width)

section Written

variable {window : Window} (held : window.IsHeld) (layout : IntLayout) {offset : Nat}
  (within : offset + layout.width ≤ window.length) (value : Int)
include held within

theorem field_written :
    (window.patched offset (layout.order.write layout.width value)).field layout.width offset
      = layout.order.write layout.width value := by
  have length := layout.order.length_write layout.width value
  have shown := field_patched held (length.symm ▸ within)
  rw [length] at shown
  exact shown

/-- What was written at an offset of a window is read there. -/
theorem read_written :
    (window.patched offset (layout.order.write layout.width value)).read layout offset
      = .ok (if layout.signed then
            layout.order.readSigned (layout.order.write layout.width value)
          else layout.order.read (layout.order.write layout.width value)) := by
  have length := layout.order.length_write layout.width value
  have heldAfter := isHeld_patched held (length.symm ▸ within)
  rw [read_eq heldAfter layout within, field_written held layout within value]

/-- Everything to be said of a write is true of every write within a window. -/
theorem wrote :
    window.Wrote layout offset value
      (window.patched offset (layout.order.write layout.width value)) := by
  have length := layout.order.length_write layout.width value
  have fits : window.start + offset + (layout.order.write layout.width value).length
      ≤ window.backing.length := le_backing_of_within held (length.symm ▸ within)
  have readUnsigned := read_written held (layout.withSign false) within value
  have readSigned := read_written held (layout.withSign true) within value
  have residue := layout.order.readSigned_write_emod layout.width value
  have bounds := layout.order.readSigned_bounds (layout.order.write layout.width value)
  rw [length] at bounds
  constructor
  case returned => exact writeScalar_eq held layout within value
  case start => rfl
  case length => rfl
  case size => exact Bytes.length_patch fits
  case framed =>
    intro index outside
    exact Bytes.getElem?_patch_of_outside fits (by omega)
  case unsigned =>
    rw [Number.two_pow_eight_mul, ← ByteOrder.read_write layout.order]
    exact readUnsigned
  case signed =>
    rw [Number.two_pow_eight_mul]
    exact ⟨_, readSigned, bounds.1, bounds.2, residue⟩
  case guardUnsigned =>
    rw [Number.isUnsigned_int_iff, ← layout.order.read_write_eq_self_iff]
    exact ⟨fun same => readUnsigned.trans (congrArg Except.ok same),
      fun read => Except.ok.inj (readUnsigned.symm.trans read)⟩
  case guardSigned =>
    rw [Number.isSigned_int_iff, ← layout.order.readSigned_write_eq_self_iff]
    exact ⟨fun same => readSigned.trans (congrArg Except.ok same),
      fun read => Except.ok.inj (readSigned.symm.trans read)⟩
  case mirrored =>
    refine ⟨_, _, writeScalar_eq held (layout.inOrder .little) within value,
      writeScalar_eq held (layout.inOrder .big) within value, ?_⟩
    have little := field_written held (layout.inOrder .little) within value
    have big := field_written held (layout.inOrder .big) within value
    calc
      _ = ByteOrder.big.write layout.width value := big
      _ = (ByteOrder.little.write layout.width value).reverse :=
        ByteOrder.write_big layout.width value
      _ = _ := congrArg List.reverse little.symm
  case commutes =>
    intro other there another withinThere apart
    have lengthThere := other.order.length_write other.width another
    refine ⟨_, _, writeScalar_eq held other withinThere another,
      writeScalar_eq (isHeld_patched held (by omega)) layout within value, ?_⟩
    rw [← patched_comm held (by omega) (by omega) (by omega)]
    exact writeScalar_eq (isHeld_patched held (by omega)) other withinThere another

end Written

end Window

/-! ## Values of fixed width -/

namespace Primitive

/-- Whether a value is one in two's complement. -/
def isSigned : Primitive → Bool
  | i8 | i16 | i32 | i64 => true
  | u8 | u16 | u32 | u64 | bool => false

/-- How a value lies in bytes. -/
def layout (kind : Primitive) : IntLayout :=
  ⟨kind.width, .little, kind.isSigned⟩

/-- A value as one of a type that is not known in advance. -/
def scalar : (kind : Primitive) → kind.format.Val → Scalar
  | u8, value | u16, value | u32, value => .number value
  | i8, value | i16, value | i32, value => .number value
  | u64, value | i64, value => .integer value
  | bool, value => .truth value

/-- What is written of a value is read back as the value. -/
theorem restores (kind : Primitive) : kind.format.codec.Restores fun _ => [] := by
  cases kind with
  | u8 => exact Codec.restores_unsigned .little 1
  | u16 => exact Codec.restores_unsigned .little 2
  | u32 => exact Codec.restores_unsigned .little 4
  | u64 => exact Codec.restores_u64
  | i8 => exact Codec.restores_signed .little 1
  | i16 => exact Codec.restores_signed .little 2
  | i32 => exact Codec.restores_signed .little 4
  | i64 => exact Codec.restores_i64
  | bool => exact Codec.restores_bool

theorem yields (kind : Primitive) : kind.format.codec.Yields kind.format.WellFormed := by
  refine kind.format.yields ?_ ?_ ?_
  · cases kind <;> rfl
  · cases kind <;> rfl
  · cases kind <;> rfl

end Primitive

/-! ## Access and guards -/

end PeerWire
