import PeerWire.Proofs.FrameGrammar

/-!
# Command names and their fields

The names that can be written and the fields that can be read correspond one to one.

A name is judged by its UTF-8 form, but what that comes to can be said of its units: each is
ASCII and no NUL, and there are at most twelve (`checkName_eq`). Surrogates, with or without
their partners, and all characters of more than one byte are among those refused.

A field is judged backwards: NULs at its end are dropped, and what is left is asked for a NUL
first and for a byte beyond ASCII then. What that comes to can be said forwards: the field is a
run of ASCII bytes without NUL, and NULs behind it (`isPadded_iff`).

The correspondence (`names_correspond_to_fields`) is what these two amount to together.
-/

set_option autoImplicit false

namespace PeerWire

/-! ## ASCII units -/

/-- A unit that is ASCII is the unit of a byte. -/
theorem Text.toUInt16_toUInt8 {unit : UInt16} (ascii : unit ≤ 0x7f) :
    unit.toUInt8.toUInt16 = unit := by
  have small : unit.toNat ≤ 0x7f := UInt16.le_iff_toNat_le.mp ascii
  rw [← UInt16.toNat_inj, UInt8.toNat_toUInt16, UInt16.toNat_toUInt8]
  omega

/-- The UTF-8 form of a text is ASCII exactly if the units of the text are. -/
theorem Text.isAscii_toUtf8_iff {text : Text} :
    text.toUtf8.isAscii = true ↔ ∀ unit ∈ text.units, unit ≤ 0x7f := by
  constructor
  · intro ascii unit inside
    rw [eq_of_isAscii_toUtf8 ascii] at inside
    obtain ⟨byte, among, rfl⟩ := List.mem_map.mp inside
    have small : byte ≤ 0x7f := of_decide_eq_true (List.all_eq_true.mp ascii byte among)
    rw [UInt16.le_iff_toNat_le, UInt8.toNat_toUInt16]
    exact UInt8.le_iff_toNat_le.mp small
  · intro small
    have bytes : Bytes.isAscii (text.units.map UInt16.toUInt8) = true := by
      refine List.all_eq_true.mpr fun byte inside => decide_eq_true ?_
      obtain ⟨unit, among, rfl⟩ := List.mem_map.mp inside
      rw [UInt8.le_iff_toNat_le, ← UInt8.toNat_toUInt16, toUInt16_toUInt8 (small unit among)]
      exact UInt16.le_iff_toNat_le.mp (small unit among)
    have units : (text.units.map UInt16.toUInt8).map UInt8.toUInt16 = text.units := by
      rw [List.map_map]
      refine (List.map_congr_left fun unit inside => ?_).trans (List.map_id _)
      exact toUInt16_toUInt8 (small unit inside)
    have same : text = ⟨(text.units.map UInt16.toUInt8).map UInt8.toUInt16⟩ := by rw [units]
    rw [same, toUtf8_of_isAscii bytes]
    exact bytes

/-- Then it has a byte for each of them. -/
theorem Text.toUtf8_eq_map {text : Text} (ascii : text.toUtf8.isAscii = true) :
    text.toUtf8 = text.units.map UInt16.toUInt8 := by
  have same : UInt16.toUInt8 ∘ UInt8.toUInt16 = id := funext UInt8.toUInt8_toUInt16
  conv => rhs; rw [eq_of_isAscii_toUtf8 ascii, List.map_map, same, List.map_id]

namespace Command

/-! ## Names -/

/-- Each unit of a name is ASCII and none is NUL. -/
def IsPlain (name : Text) : Prop :=
  ∀ unit ∈ name.units, 1 ≤ unit ∧ unit ≤ 0x7f

instance (name : Text) : Decidable (IsPlain name) :=
  inferInstanceAs (Decidable (∀ unit ∈ name.units, 1 ≤ unit ∧ unit ≤ 0x7f))

theorem isPlain_iff {name : Text} :
    IsPlain name ↔ name.toUtf8.isAscii = true ∧ 0 ∉ name.toUtf8 := by
  have positive : ∀ unit : UInt16, 1 ≤ unit ↔ unit ≠ 0 := by
    intro unit
    rw [UInt16.le_iff_toNat_le, ne_eq, ← UInt16.toNat_inj]
    exact Nat.pos_iff_ne_zero
  simp only [IsPlain, forall_and, ← Text.isAscii_toUtf8_iff]
  rw [and_comm]
  refine and_congr_right fun ascii => ?_
  conv => lhs; rw [Text.eq_of_isAscii_toUtf8 ascii]
  simp only [positive, List.forall_mem_map]
  constructor
  · exact fun nonzero inside => nonzero 0 inside rfl
  · intro without byte inside zero
    have nul : byte = 0 := UInt8.toUInt16_inj.mp zero
    exact without (nul ▸ inside)

/-- The judgement of a name, by its units alone. -/
theorem checkName_eq (name : Text) :
    checkName name
      = if ¬ IsPlain name then .error (.commandNotAscii name)
        else if fieldSize < name.units.length then
          .error (.commandTooLong name name.units.length fieldSize)
        else .ok (name.units.map UInt16.toUInt8) := by
  have judged : (!name.toUtf8.isAscii || name.toUtf8.contains 0) = true ↔ ¬ IsPlain name := by
    rw [isPlain_iff, Bool.or_eq_true, Bool.not_eq_true', List.contains_eq_mem, decide_eq_true_eq]
    cases name.toUtf8.isAscii <;> simp
  rw [checkName]
  by_cases plain : IsPlain name
  · have bytes := Text.toUtf8_eq_map (isPlain_iff.mp plain).1
    rw [if_neg (mt judged.mp (not_not_intro plain)), if_neg (not_not_intro plain), bytes,
      List.length_map]
  · rw [if_pos (judged.mpr plain), if_pos plain]

/-- A name has a field exactly if it is plain and short enough. -/
theorem serialize_eq_ok_iff_plain {name : Text} {bytes : Bytes} :
    codec.serialize name = .ok bytes
      ↔ (name.units.length ≤ fieldSize ∧ IsPlain name)
          ∧ bytes = field (name.units.map UInt16.toUInt8) := by
  rw [Codec.serialize, codec, Emission.toExcept_ofExcept_eq_ok]
  simp only [Emission.toExcept_chunk, checkName_eq]
  by_cases plain : IsPlain name
  · by_cases long : fieldSize < name.units.length
    · simp [plain, Nat.not_le.mpr long, long]
    · simp [plain, Nat.not_lt.mp long, long, eq_comm]
  · simp [plain]

/-- Any other name is out of range, and no sink is asked for anything. -/
theorem encode_of_serialize_error {name : Text} {fault : Fault}
    (failed : codec.serialize name = .error fault) :
    fault.kind = .range ∧ codec.encode name = .fail fault := by
  rw [Codec.serialize, codec] at failed
  rw [codec]
  dsimp only at failed ⊢
  rw [checkName_eq] at failed ⊢
  split at failed
  · next mixed =>
    rw [if_pos mixed]
    cases failed
    exact ⟨rfl, rfl⟩
  · next plain =>
    rw [if_neg plain]
    split at failed
    · next long =>
      rw [if_pos long]
      cases failed
      exact ⟨rfl, rfl⟩
    · cases failed

/-! ## Fields -/

/-- A run of ASCII bytes other than NUL, and NULs behind it. -/
def IsPadded (field : Bytes) : Prop :=
  ∃ run count, field = run ++ List.replicate count 0 ∧ ∀ byte ∈ run, 1 ≤ byte ∧ byte ≤ 0x7f

theorem isAscii_eq_false_iff {bytes : Bytes} :
    bytes.isAscii = false ↔ ∃ byte ∈ bytes, 0x7f < byte := by
  rw [Bytes.isAscii, List.all_eq_false]
  simp only [decide_eq_true_eq, UInt8.not_le]

/-- A field is padded exactly if neither of the two tests on it fails. -/
theorem isPadded_iff {bytes : Bytes} (size : bytes.length = fieldSize) :
    IsPadded bytes ↔ ¬ HasEmbeddedNul bytes ∧ bytes.isAscii = true := by
  rw [← mem_trim_iff, ← isAscii_trim]
  constructor
  · rintro ⟨run, count, rfl, plain⟩
    rw [List.length_append, List.length_replicate] at size
    have noNul : 0 ∉ run := fun inside => absurd (plain 0 inside).1 (by decide)
    have padding : count = fieldSize - run.length := by omega
    have trimmed : trim (run ++ List.replicate count 0) = run := by
      rw [padding]
      exact trim_field noNul
    rw [trimmed]
    exact ⟨noNul, List.all_eq_true.mpr fun byte inside => decide_eq_true (plain byte inside).2⟩
  · rintro ⟨noNul, ascii⟩
    obtain ⟨count, padded⟩ := exists_eq_trim_append bytes
    refine ⟨trim bytes, count, padded, fun byte inside => ⟨?_, ?_⟩⟩
    · rw [UInt8.le_iff_toNat_le]
      refine Nat.pos_iff_ne_zero.mpr fun zero => noNul ?_
      have nul : byte = 0 := UInt8.toNat_inj.mp zero
      exact nul ▸ inside
    · exact of_decide_eq_true (List.all_eq_true.mp ascii byte inside)

/-- Reading a field in front of other bytes is judging it. -/
theorem deserializePartial_field {bytes : Bytes} (size : bytes.length = fieldSize)
    (suffix : Bytes) :
    codec.decode.deserializePartial (bytes ++ suffix)
      = match nameOfField bytes with
        | .ok name => .ok ⟨name, fieldSize⟩
        | .error error => .error (.consensus error) := by
  have parsed : codec.decode.parse (bytes ++ suffix)
      = (Decoder.ofExcept (nameOfField bytes)).parse suffix := by
    rw [codec, Decoder.parse_take_append size]
  cases judged : nameOfField bytes with
  | ok name =>
    rw [judged] at parsed
    rw [Decoder.deserializePartial_append parsed, size]
  | error error =>
    rw [judged] at parsed
    exact Decoder.deserializePartial_of_error (congrArg Prod.fst parsed)

/-- What a field is read as is written as the field. -/
theorem serialize_of_nameOfField {bytes : Bytes} {name : Text} (size : bytes.length = fieldSize)
    (judged : nameOfField bytes = .ok name) : codec.serialize name = .ok bytes := by
  have parsed : codec.decode.parse bytes = (.ok name, []) := by
    rw [← List.append_nil bytes, codec, Decoder.parse_take_append size, judged]
    rfl
  obtain ⟨front, written, split⟩ := canonical_codec _ _ _ parsed
  rw [split, List.append_nil]
  exact written

/-! ## The correspondence -/

/-- A name can be written exactly if it has at most twelve units, each of them from U+0001 to
U+007F. It is written as its units and NULs up to twelve bytes, which are read back as the name,
whatever follows. Any other name is out of range, and no sink is asked for anything.

A field can be read exactly if it is a run of bytes from 0x01 to 0x7f and NULs behind it, and
then what is read is written as the field. It has an embedded NUL exactly if some NUL stands in
front of another byte, and is not ASCII exactly if none does and some byte is above 0x7f. -/
theorem names_correspond_to_fields :
    (∀ name : Text,
        ((∃ bytes, codec.serialize name = .ok bytes)
            ↔ name.units.length ≤ 12 ∧ ∀ unit ∈ name.units, 0x01 ≤ unit ∧ unit ≤ 0x7f)
          ∧ (∀ bytes, codec.serialize name = .ok bytes →
              bytes = name.units.map UInt16.toUInt8 ++ List.replicate (12 - name.units.length) 0
                ∧ bytes.length = 12
                ∧ ∀ suffix, codec.decode.deserializePartial (bytes ++ suffix) = .ok ⟨name, 12⟩)
          ∧ ∀ fault, codec.serialize name = .error fault →
              fault.kind = .range
                ∧ ∀ (σ : Type) [ByteSink σ] (sink : σ),
                  (codec.encode name).deliver sink = (.error (.fault fault), sink))
      ∧ ∀ bytes : Bytes, bytes.length = 12 → ∀ suffix,
        ((∃ read, codec.decode.deserializePartial (bytes ++ suffix) = .ok read)
            ↔ ∃ run count, bytes = run ++ List.replicate count 0
                ∧ ∀ byte ∈ run, 0x01 ≤ byte ∧ byte ≤ 0x7f)
          ∧ (∀ read, codec.decode.deserializePartial (bytes ++ suffix) = .ok read →
              read.consumed = 12 ∧ codec.serialize read.value = .ok bytes)
          ∧ (codec.decode.deserializePartial (bytes ++ suffix)
                = .error (.consensus (.parseFailed .embeddedNul))
              ↔ HasEmbeddedNul bytes)
          ∧ (codec.decode.deserializePartial (bytes ++ suffix)
                = .error (.consensus (.parseFailed .commandNotAscii))
              ↔ ¬ HasEmbeddedNul bytes ∧ ∃ byte ∈ bytes, 0x7f < byte) := by
  refine ⟨fun name => ⟨?_, ?_, ?_⟩, fun bytes size suffix => ?_⟩
  · simp only [serialize_eq_ok_iff_plain, exists_and_left, exists_eq, and_true]
    rfl
  · intro bytes written
    obtain ⟨⟨short, -⟩, padded⟩ := serialize_eq_ok_iff_plain.mp written
    have length : bytes.length = 12 := by
      rw [padded]
      exact length_field (by rw [List.length_map]; exact short)
    refine ⟨?_, length, fun suffix => ?_⟩
    · rw [padded, field, List.length_map]
      rfl
    · rw [Decoder.deserializePartial_append (restores_codec.restored written rfl suffix), length]
  · intro fault failed
    obtain ⟨range, emission⟩ := encode_of_serialize_error failed
    refine ⟨range, fun σ _ sink => ?_⟩
    rw [emission]
    rfl
  · have twelve : fieldSize = 12 := rfl
    have padded := isPadded_iff size
    have judged := nameOfField_eq bytes
    change (_ ↔ IsPadded bytes) ∧ _
    rw [deserializePartial_field size, padded, ← isAscii_eq_false_iff]
    by_cases embedded : HasEmbeddedNul bytes
    · rw [if_pos embedded] at judged
      rw [judged]
      simp [embedded]
    rw [if_neg embedded] at judged
    by_cases high : bytes.isAscii = false
    · rw [if_pos high] at judged
      rw [judged]
      simp [embedded, high]
    · rw [if_neg high] at judged
      rw [judged]
      have written := serialize_of_nameOfField size judged
      simp [embedded, high, written, twelve]

/-- A field is read although another byte follows it, and written again. A NUL in front of a byte
beyond ASCII is an embedded NUL; the same byte in front of NULs is not ASCII. A name that ends in
half of a pair has no field. -/
theorem names_correspond_to_fields_ping :
    (∃ read, codec.decode.deserializePartial ([112, 105, 110, 103, 0, 0, 0, 0, 0, 0, 0, 0] ++ [9])
          = .ok read
        ∧ codec.serialize read.value = .ok [112, 105, 110, 103, 0, 0, 0, 0, 0, 0, 0, 0])
      ∧ codec.decode.deserializePartial ([112, 0, 233, 0, 0, 0, 0, 0, 0, 0, 0, 0] ++ [])
          = .error (.consensus (.parseFailed .embeddedNul))
      ∧ codec.decode.deserializePartial ([112, 233, 0, 0, 0, 0, 0, 0, 0, 0, 0, 0] ++ [])
          = .error (.consensus (.parseFailed .commandNotAscii))
      ∧ ¬ ∃ bytes, codec.serialize ⟨[0x70, 0xd83d]⟩ = .ok bytes := by
  refine ⟨?_, ?_, ?_, ?_⟩
  · obtain ⟨readable, again, -⟩ :=
      names_correspond_to_fields.2 [112, 105, 110, 103, 0, 0, 0, 0, 0, 0, 0, 0] rfl [9]
    obtain ⟨read, accepted⟩ := readable.mpr ⟨[112, 105, 110, 103], 8, rfl, by simp⟩
    exact ⟨read, accepted, (again read accepted).2⟩
  · exact (names_correspond_to_fields.2 [112, 0, 233, 0, 0, 0, 0, 0, 0, 0, 0, 0] rfl []).2.2.1.mpr
      (by decide)
  · exact (names_correspond_to_fields.2 [112, 233, 0, 0, 0, 0, 0, 0, 0, 0, 0, 0] rfl []).2.2.2.mpr
      (by decide)
  · rw [(names_correspond_to_fields.1 ⟨[0x70, 0xd83d]⟩).1]
    rintro ⟨-, plain⟩
    exact absurd (plain 0xd83d (by simp)).2 (by decide)

end Command

end PeerWire
