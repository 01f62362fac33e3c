import PeerWire.Proofs.CodecLaws
import PeerWire.Proofs.Integers

/-!
# Laws of the integer codecs

Integers of fixed width, truth values and magnitudes of variable length are
restored. All of them but truth values are canonical: any byte other than zero reads
as true, and only one of these is written.

A magnitude is canonical because a form longer than needed is refused. Which of the
four forms a magnitude has is decided twice, by its value when it is written and by
the marker when it is read, and the bounds agree.
-/

set_option autoImplicit false

attribute [local instance (high)] instPowNat

namespace PeerWire

namespace Codec

/-! ## Integers of fixed width -/

theorem serialize_unsigned_eq_ok {order : ByteOrder} {width : Nat} {number : Number}
    {bytes : Bytes} :
    (unsigned order width).serialize number = .ok bytes
      ↔ ∃ value : Int, number = .int value ∧ (0 ≤ value ∧ value < (256 ^ width : Nat))
          ∧ bytes = order.write width value := by
  rw [serialize, unsigned]
  dsimp only
  split
  · next fits =>
    obtain ⟨value, rfl, bounds⟩ := Number.isUnsigned_iff.mp fits
    rw [Emission.toExcept_chunk]
    constructor
    · rintro ⟨⟩
      exact ⟨value, rfl, bounds, rfl⟩
    · rintro ⟨_, ⟨⟩, _, rfl⟩
      rfl
  · next large =>
    constructor
    · rintro ⟨⟩
    · rintro ⟨value, rfl, bounds, _⟩
      exact absurd (Number.isUnsigned_iff.mpr ⟨value, rfl, bounds⟩) large

theorem serialize_signed_eq_ok {order : ByteOrder} {width : Nat} {number : Number}
    {bytes : Bytes} :
    (signed order width).serialize number = .ok bytes
      ↔ ∃ value : Int, number = .int value
          ∧ (-(256 ^ width : Nat) ≤ 2 * value ∧ 2 * value < (256 ^ width : Nat))
          ∧ bytes = order.write width value := by
  rw [serialize, signed]
  dsimp only
  split
  · next fits =>
    obtain ⟨value, rfl, bounds⟩ := Number.isSigned_iff.mp fits
    rw [Emission.toExcept_chunk]
    constructor
    · rintro ⟨⟩
      exact ⟨value, rfl, bounds, rfl⟩
    · rintro ⟨_, ⟨⟩, _, rfl⟩
      rfl
  · next large =>
    constructor
    · rintro ⟨⟩
    · rintro ⟨value, rfl, bounds, _⟩
      exact absurd (Number.isSigned_iff.mpr ⟨value, rfl, bounds⟩) large

theorem serialize_u64_eq_ok {value : Int} {bytes : Bytes} :
    u64.serialize value = .ok bytes
      ↔ (0 ≤ value ∧ value < (256 ^ (8 : Nat) : Nat)) ∧ bytes = ByteOrder.little.write 8 value := by
  rw [serialize, u64]
  dsimp only
  rw [← isUnsigned64_iff]
  split
  · next fits => simp [fits, eq_comm]
  · next large => simp [large]

theorem serialize_i64_eq_ok {value : Int} {bytes : Bytes} :
    i64.serialize value = .ok bytes
      ↔ (-(256 ^ (8 : Nat) : Nat) ≤ 2 * value ∧ 2 * value < (256 ^ (8 : Nat) : Nat))
          ∧ bytes = ByteOrder.little.write 8 value := by
  rw [serialize, i64]
  dsimp only
  rw [← isSigned64_iff]
  split
  · next fits => simp [fits, eq_comm]
  · next large => simp [large]

theorem restores_unsigned (order : ByteOrder) (width : Nat) :
    (unsigned order width).Restores fun _ => [] := by
  refine .of_parse_append fun written suffix => ?_
  obtain ⟨value, rfl, ⟨lower, upper⟩, rfl⟩ := serialize_unsigned_eq_ok.mp written
  rw [unsigned, Decoder.parse_take_append (ByteOrder.length_write _ _ _), Decoder.parse_done,
    ByteOrder.read_write_of_lt lower upper]

theorem restores_signed (order : ByteOrder) (width : Nat) :
    (signed order width).Restores fun _ => [] := by
  refine .of_parse_append fun written suffix => ?_
  obtain ⟨value, rfl, ⟨lower, upper⟩, rfl⟩ := serialize_signed_eq_ok.mp written
  rw [signed, Decoder.parse_take_append (ByteOrder.length_write _ _ _), Decoder.parse_done,
    ByteOrder.readSigned_write lower upper]

theorem restores_u64 : u64.Restores fun _ => [] := by
  refine .of_parse_append fun written suffix => ?_
  obtain ⟨⟨lower, upper⟩, rfl⟩ := serialize_u64_eq_ok.mp written
  rw [u64, Decoder.parse_take_append (ByteOrder.length_write _ _ _), Decoder.parse_done,
    ByteOrder.read_write_of_lt lower upper]

theorem restores_i64 : i64.Restores fun _ => [] := by
  refine .of_parse_append fun written suffix => ?_
  obtain ⟨⟨lower, upper⟩, rfl⟩ := serialize_i64_eq_ok.mp written
  rw [i64, Decoder.parse_take_append (ByteOrder.length_write _ _ _), Decoder.parse_done,
    ByteOrder.readSigned_write lower upper]

theorem canonical_unsigned (order : ByteOrder) (width : Nat) :
    (unsigned order width).Canonical := by
  intro bytes rest number parsed
  obtain ⟨front, suffix, rfl, rfl, read⟩ := Decoder.parse_take_eq_ok parsed
  cases read
  refine ⟨front, serialize_unsigned_eq_ok.mpr ⟨_, rfl, ⟨Int.natCast_nonneg _, ?_⟩, ?_⟩, rfl⟩
  · exact Int.ofNat_lt.mpr (order.read_lt front)
  · exact (order.write_read front).symm

theorem canonical_signed (order : ByteOrder) (width : Nat) :
    (signed order width).Canonical := by
  intro bytes rest number parsed
  obtain ⟨front, suffix, rfl, rfl, read⟩ := Decoder.parse_take_eq_ok parsed
  cases read
  exact ⟨front, serialize_signed_eq_ok.mpr
    ⟨_, rfl, order.readSigned_bounds front, (order.write_readSigned front).symm⟩, rfl⟩

theorem canonical_u64 : u64.Canonical := by
  intro bytes rest value parsed
  obtain ⟨front, suffix, rfl, size, read⟩ := Decoder.parse_take_eq_ok parsed
  cases read
  have bound := ByteOrder.little.read_lt front
  have written := ByteOrder.little.write_read front
  rw [size] at bound written
  exact ⟨front, serialize_u64_eq_ok.mpr
    ⟨⟨Int.natCast_nonneg _, Int.ofNat_lt.mpr bound⟩, written.symm⟩, rfl⟩

theorem canonical_i64 : i64.Canonical := by
  intro bytes rest value parsed
  obtain ⟨front, suffix, rfl, size, read⟩ := Decoder.parse_take_eq_ok parsed
  cases read
  have bounds := ByteOrder.little.readSigned_bounds front
  have written := ByteOrder.little.write_readSigned front
  rw [size] at bounds written
  exact ⟨front, serialize_i64_eq_ok.mpr ⟨bounds, written.symm⟩, rfl⟩

/-! ## Truth values -/

theorem restores_bool : bool.Restores fun _ => [] := by
  refine .of_parse_append fun {value bytes} written suffix => ?_
  rw [serialize, bool, Emission.toExcept_chunk] at written
  cases written
  have size : [if value = true then (1 : UInt8) else 0].length = 1 := rfl
  rw [bool, Decoder.parse_take_append size, Decoder.parse_done]
  cases value <;> rfl

/-! ## Nothing at all -/

theorem restores_unit : unit.Restores fun _ => [] := by
  refine .of_parse_append fun written suffix => ?_
  cases written
  rfl

theorem canonical_unit : unit.Canonical := by
  intro bytes rest value parsed
  cases parsed
  exact ⟨[], rfl, rfl⟩

end Codec

/-! ## Magnitudes of variable length -/

namespace VarInt

/-- The first byte tells the form. -/
theorem parse_cons (first : UInt8) (tail : Bytes) :
    decode.parse (first :: tail)
      = (if first = marker64 then decodeWide 8 0xffffffff
          else if first = marker32 then decodeWide 4 0xffff
          else if first = marker16 then decodeWide 2 0xfc
          else .done ⟨UInt64.ofNat first.toNat⟩).parse tail := by
  have size : [first].length = 1 := rfl
  rw [← List.singleton_append, decode, Decoder.parse_take_append size]
  rfl

/-- Behind a marker, a magnitude that needs the width is read back. -/
theorem parse_decodeWide_ofNat {width shorter : Nat} {varInt : VarInt}
    (large : shorter < varInt.value.toNat) (fits : varInt.value.toNat < 256 ^ width)
    (suffix : Bytes) :
    (decodeWide width shorter).parse (Bytes.ofNat width varInt.value.toNat ++ suffix)
      = (.ok varInt, suffix) := by
  have number : (Bytes.ofNat width varInt.value.toNat).toNat = varInt.value.toNat := by
    rw [Bytes.toNat_ofNat, Nat.mod_eq_of_lt fits]
  rw [decodeWide, Decoder.parse_take_append (Bytes.length_ofNat _ _), number,
    if_neg (Nat.not_le.mpr large), UInt64.ofNat_toNat, Decoder.parse_done]

/-- Behind a marker, only a magnitude that needs the width is read. -/
theorem parse_decodeWide_eq_ok {width shorter : Nat} {bytes rest : Bytes} {varInt : VarInt}
    (narrow : 256 ^ width ≤ 2 ^ (64 : Nat))
    (parsed : (decodeWide width shorter).parse bytes = (.ok varInt, rest)) :
    shorter < varInt.value.toNat ∧ varInt.value.toNat < 256 ^ width
      ∧ bytes = Bytes.ofNat width varInt.value.toNat ++ rest := by
  obtain ⟨front, suffix, rfl, rfl, read⟩ := Decoder.parse_take_eq_ok parsed
  have bound := Bytes.toNat_lt front
  split at read
  · cases read
  · next large =>
    cases read
    have number : (UInt64.ofNat front.toNat).toNat = front.toNat := by
      rw [UInt64.toNat_ofNat', Nat.mod_eq_of_lt (Nat.lt_of_lt_of_le bound narrow)]
    rw [number, Bytes.ofNat_toNat]
    exact ⟨Nat.not_le.mp large, bound, rfl⟩

/-- A magnitude is read back from its shortest form. -/
theorem parse_toBytes_append (varInt : VarInt) (suffix : Bytes) :
    decode.parse (varInt.toBytes ++ suffix) = (.ok varInt, suffix) := by
  have bound := varInt.value.toNat_lt
  rw [toBytes]
  split
  · next tier =>
    have first : (UInt8.ofNat varInt.value.toNat).toNat = varInt.value.toNat := by
      rw [UInt8.toNat_ofNat', Nat.mod_eq_of_lt (by omega)]
    have unmarked : ∀ marker : UInt8, 0xfd ≤ marker.toNat →
        ¬ UInt8.ofNat varInt.value.toNat = marker := by
      rintro marker large rfl
      omega
    change decode.parse (UInt8.ofNat varInt.value.toNat :: suffix) = _
    rw [parse_cons, if_neg (unmarked _ (by decide)), if_neg (unmarked _ (by decide)),
      if_neg (unmarked _ (by decide)), first, UInt64.ofNat_toNat, Decoder.parse_done]
  · split
    · rw [List.cons_append, parse_cons, if_neg (by decide), if_neg (by decide), if_pos rfl]
      exact parse_decodeWide_ofNat (by omega) (by omega) suffix
    · split
      · rw [List.cons_append, parse_cons, if_neg (by decide), if_pos rfl]
        exact parse_decodeWide_ofNat (by omega) (by omega) suffix
      · rw [List.cons_append, parse_cons, if_pos rfl]
        exact parse_decodeWide_ofNat (by omega) (by omega) suffix

/-- What a magnitude is read from is its shortest form: the bound that a longer form
has passed decides its tier again. -/
theorem eq_toBytes_of_parse {bytes rest : Bytes} {varInt : VarInt}
    (parsed : decode.parse bytes = (.ok varInt, rest)) : bytes = varInt.toBytes ++ rest := by
  cases bytes with
  | nil => cases parsed
  | cons first tail =>
    rw [parse_cons] at parsed
    rw [toBytes]
    split at parsed
    · next marked =>
      obtain ⟨large, fits, rfl⟩ := parse_decodeWide_eq_ok (by decide) parsed
      rw [if_neg (by omega), if_neg (by omega), if_neg (by omega), marked, List.cons_append]
    · split at parsed
      · next marked =>
        obtain ⟨large, fits, rfl⟩ := parse_decodeWide_eq_ok (by decide) parsed
        rw [if_neg (by omega), if_neg (by omega), if_pos (by omega), marked, List.cons_append]
      · split at parsed
        · next marked =>
          obtain ⟨large, fits, rfl⟩ := parse_decodeWide_eq_ok (by decide) parsed
          rw [if_neg (by omega), if_pos (by omega), marked, List.cons_append]
        · next not64 not32 not16 =>
          cases parsed
          have bound := first.toNat_lt
          have number : (UInt64.ofNat first.toNat).toNat = first.toNat := by
            rw [UInt64.toNat_ofNat', Nat.mod_eq_of_lt (by omega)]
          have unmarked : first.toNat < 0xfd := by
            rw [← UInt8.toNat_inj] at not64 not32 not16
            change ¬ first.toNat = 0xff at not64
            change ¬ first.toNat = 0xfe at not32
            change ¬ first.toNat = 0xfd at not16
            omega
          rw [number, if_pos unmarked, Bytes.ofNat, UInt8.ofNat_toNat]
          rfl

theorem restores_codec : codec.Restores fun _ => [] := by
  refine .of_parse_append fun {varInt bytes} written suffix => ?_
  rw [Codec.serialize, codec, Emission.toExcept_chunk] at written
  cases written
  exact parse_toBytes_append varInt suffix

theorem canonical_codec : codec.Canonical := by
  intro bytes rest varInt parsed
  exact ⟨varInt.toBytes, Emission.toExcept_chunk _, eq_toBytes_of_parse parsed⟩

end VarInt

end PeerWire
