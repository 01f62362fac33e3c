import PeerWire.Command
import PeerWire.Proofs.ScalarLaws
import PeerWire.Proofs.Unicode

/-!
# Laws of byte strings, sequences and texts

Formats whose length is part of the type or goes in front of the contents are
restored and canonical. A sequence behind a count demands room for its elements
before any of them is read, so its own demand comes first and those of the elements
follow in order.

A text is restored because it is well formed when it is written, and canonical
because only the UTF-8 form of a text is read. A command name is restored because it
holds no NUL, so that no part of it is taken for the NULs behind it.
-/

set_option autoImplicit false

attribute [local instance (high)] instPowNat

namespace PeerWire

namespace Codec

variable {α : Type}

/-! ## Byte strings of one length -/

theorem serialize_fixedBytes_eq_ok {length : Nat} {value bytes : Bytes} :
    (fixedBytes length).serialize value = .ok bytes ↔ value.length = length ∧ bytes = value := by
  rw [serialize, fixedBytes, Emission.toExcept_ofExcept_eq_ok]
  constructor
  · rintro ⟨checked, exactly, written⟩
    rw [Bytes.exactly] at exactly
    split at exactly
    · next same =>
      cases exactly
      rw [Emission.toExcept_chunk] at written
      cases written
      exact ⟨Int.ofNat.inj (Number.int.inj same), rfl⟩
    · cases exactly
  · rintro ⟨rfl, rfl⟩
    exact ⟨bytes, if_pos rfl, Emission.toExcept_chunk bytes⟩

theorem restores_fixedBytes (length : Nat) : (fixedBytes length).Restores fun _ => [] := by
  refine .of_parse_append fun written suffix => ?_
  obtain ⟨size, rfl⟩ := serialize_fixedBytes_eq_ok.mp written
  rw [fixedBytes, Decoder.bytes, Decoder.parse_take_append size, Decoder.parse_done]

theorem canonical_fixedBytes (length : Nat) : (fixedBytes length).Canonical := by
  intro bytes rest value parsed
  obtain ⟨front, suffix, rfl, size, read⟩ := Decoder.parse_take_eq_ok parsed
  cases read
  exact ⟨value, serialize_fixedBytes_eq_ok.mpr ⟨size, rfl⟩, rfl⟩

/-! ## Counts -/

/-- The magnitude of a count. -/
def countOf (count : Nat) : VarInt :=
  ⟨UInt64.ofNat count⟩

theorem toNat_countOf {count : Nat} (safe : count ≤ Number.maxSafe) :
    (countOf count).value.toNat = count := by
  have small : Number.maxSafe < 2 ^ (64 : Nat) := by decide
  rw [countOf, UInt64.toNat_ofNat', Nat.mod_eq_of_lt (by omega)]

theorem toExcept_emit_eq_ok {count : Nat} {bytes : Bytes} :
    (VarInt.emit (VarInt.ofNumber (.int count))).toExcept = .ok bytes
      ↔ count ≤ Number.maxSafe ∧ bytes = (countOf count).toBytes := by
  have ceiling : Number.maxSafe < 2 ^ (64 : Nat) := by decide
  rw [VarInt.emit, Emission.toExcept_ofExcept_eq_ok, VarInt.ofNumber, Number.isSafe,
    Int.natAbs_natCast]
  by_cases safe : count ≤ Number.maxSafe
  · have fits : isUnsigned64 count = true := isUnsigned64_iff.mpr ⟨by omega, by omega⟩
    have magnitude : VarInt.ofInt (Number.int count).truncate = .ok (countOf count) := by
      rw [Number.truncate, VarInt.ofInt, if_pos fits, Int.toNat_natCast, countOf]
    rw [if_pos (decide_eq_true safe), magnitude]
    simp [safe, eq_comm]
  · rw [if_neg (by simpa using safe)]
    simp [safe]

/-- Behind a written count its demand is met, or the count is refused. -/
theorem parse_decodeCount_append {count : Nat} (safe : count ≤ Number.maxSafe)
    (elementSize : Nat) (suffix : Bytes) :
    (decodeCount (.finite elementSize)).parse ((countOf count).toBytes ++ suffix)
      = match Demand.refusal? [⟨count, elementSize⟩] with
        | none => (.ok count, suffix)
        | some error => (.error (.consensus error), suffix) := by
  rw [decodeCount, Decoder.parse_bind_of_ok (VarInt.parse_toBytes_append _ suffix),
    toNat_countOf safe, Decoder.ofResult_checkAllocation, Demand.withinCeiling_eq]
  cases Demand.refusal? [⟨count, elementSize⟩] <;> rfl

/-- A count is read from what is written for it, and stays below the ceiling. -/
theorem parse_decodeCount_eq_ok {elementSize : Size} {count : Nat} {bytes rest : Bytes}
    (parsed : (decodeCount elementSize).parse bytes = (.ok count, rest)) :
    count ≤ maxSequenceSize ∧ bytes = (countOf count).toBytes ++ rest := by
  obtain ⟨varInt, left, first, second⟩ := Decoder.parse_bind_eq_ok parsed
  obtain ⟨allowed, rfl⟩ := Decoder.parse_ofResult_eq_ok second
  obtain ⟨size, rfl, within⟩ := checkAllocation_eq_ok allowed
  obtain ⟨rfl, room⟩ := Demand.withinCeiling_eq_ok within
  have charged : varInt.value.toNat ≤ varInt.value.toNat * max 1 size :=
    Nat.le_mul_of_pos_right _ (by omega)
  refine ⟨Nat.le_trans charged room, ?_⟩
  rw [countOf, UInt64.ofNat_toNat]
  exact VarInt.eq_toBytes_of_parse first

/-! ## Contents behind a count -/

/-- A count and then contents, of which there are as many as the count says. -/
def counted (size : Size) (length : α → Nat) (contents : α → Emission) (next : Nat → Decoder α) :
    Codec α where
  elementSize := handleSize
  encode value := (VarInt.emit (VarInt.ofNumber (.int (length value)))).andThen (contents value)
  decode := (decodeCount size).bind next

section Counted

variable {size : Size} {length : α → Nat} {contents : α → Emission} {next : Nat → Decoder α}

theorem serialize_counted_eq_ok {value : α} {bytes : Bytes} :
    (counted size length contents next).serialize value = .ok bytes
      ↔ length value ≤ Number.maxSafe ∧ ∃ inside, (contents value).toExcept = .ok inside
          ∧ bytes = (countOf (length value)).toBytes ++ inside := by
  rw [serialize, counted, Emission.toExcept_andThen_eq_ok]
  simp only [toExcept_emit_eq_ok]
  constructor
  · rintro ⟨front, inside, ⟨safe, rfl⟩, written, rfl⟩
    exact ⟨safe, inside, written, rfl⟩
  · rintro ⟨safe, inside, written, rfl⟩
    exact ⟨_, inside, ⟨safe, rfl⟩, written, rfl⟩

/-- A counted codec restores its values if the contents are restored; its own demand
comes in front of theirs. -/
theorem restores_counted {charge : Nat} {demands : α → List Demand}
    (restores : ∀ {value : α} {inside : Bytes}, (contents value).toExcept = .ok inside →
      ∀ suffix : Bytes,
        (Demand.refusal? (demands value) = none →
            (next (length value)).parse (inside ++ suffix) = (.ok value, suffix))
          ∧ ∀ error, Demand.refusal? (demands value) = some error →
            ((next (length value)).parse (inside ++ suffix)).1 = .error (.consensus error)) :
    (counted (.finite charge) length contents next).Restores
      fun value => ⟨length value, charge⟩ :: demands value where
  restored {value bytes} written allowed suffix := by
    obtain ⟨safe, inside, wroteInside, rfl⟩ := serialize_counted_eq_ok.mp written
    rw [← List.singleton_append, Demand.refusal?_append_eq_none] at allowed
    have count := parse_decodeCount_append safe charge (inside ++ suffix)
    rw [allowed.1] at count
    rw [List.append_assoc, counted, Decoder.parse_bind_of_ok count]
    exact (restores wroteInside suffix).1 allowed.2
  refused {value bytes error} written refusal suffix := by
    obtain ⟨safe, inside, wroteInside, rfl⟩ := serialize_counted_eq_ok.mp written
    have count := parse_decodeCount_append safe charge (inside ++ suffix)
    rw [List.append_assoc, counted]
    rw [← List.singleton_append] at refusal
    rcases Demand.refusal?_append_eq_some refusal with early | ⟨allowed, late⟩
    · rw [early] at count
      rw [Decoder.parse_bind_of_error (congrArg Prod.fst count)]
    · rw [allowed] at count
      rw [Decoder.parse_bind_of_ok count]
      exact (restores wroteInside suffix).2 error late

theorem canonical_counted
    (canonical : ∀ {count : Nat} {bytes rest : Bytes} {value : α},
      (next count).parse bytes = (.ok value, rest) →
        length value = count
          ∧ ∃ inside, (contents value).toExcept = .ok inside ∧ bytes = inside ++ rest) :
    (counted size length contents next).Canonical := by
  intro bytes rest value parsed
  obtain ⟨count, left, first, second⟩ := Decoder.parse_bind_eq_ok parsed
  obtain ⟨small, rfl⟩ := parse_decodeCount_eq_ok first
  obtain ⟨rfl, inside, written, rfl⟩ := canonical second
  have ceiling : maxSequenceSize ≤ Number.maxSafe := by decide
  refine ⟨(countOf (length value)).toBytes ++ inside, ?_, (List.append_assoc _ _ _).symm⟩
  exact serialize_counted_eq_ok.mpr ⟨Nat.le_trans small ceiling, inside, written, rfl⟩

end Counted

theorem varBytes_eq_counted :
    varBytes = counted (.finite 1) List.length Emission.chunk Decoder.bytes := rfl

theorem vector_eq_counted (element : Codec α) :
    element.vector
      = counted element.elementSize List.length
          (fun values => .all (values.map element.encode))
          (fun count => .reserve count element.elementSize (.times count element.decode)) :=
  congrArg (Codec.mk _ · _) (funext fun values => Emission.bind_addUp _ element.encode values)

/-- A sequence is written if its elements can be and their number is safe. -/
theorem exists_serialize_vector {element : Codec α} {values : List α}
    (each : ∀ value ∈ values, ∃ bytes, element.serialize value = .ok bytes)
    (safe : values.length ≤ Number.maxSafe) :
    ∃ bytes, element.vector.serialize values = .ok bytes := by
  obtain ⟨inside, written⟩ := exists_serializeAll each
  rw [vector_eq_counted]
  exact ⟨_, serialize_counted_eq_ok.mpr ⟨safe, inside, written, rfl⟩⟩

theorem Restores.vector {element : Codec α} {demands : α → List Demand}
    (restores : element.Restores demands) (finite : element.elementSize.IsFinite) :
    element.vector.Restores
      fun values => ⟨values.length, element.elementSize.toNat⟩ :: values.flatMap demands := by
  rw [vector_eq_counted, finite.eq_toNat]
  exact restores_counted fun written suffix => restores.times written suffix

/-- A sequence whose elements have an infinite size is read no further than its count,
whatever the count is: the charge cannot be worked out. -/
theorem parse_vector_of_infinite {element : Codec α} (infinite : element.elementSize = .infinite)
    (count : VarInt) (suffix : Bytes) :
    (element.vector.decode.parse (count.toBytes ++ suffix)).1
      = .error (.fault .infiniteSize) := by
  have counted : ((decodeCount element.elementSize).parse (count.toBytes ++ suffix)).1
      = .error (.fault .infiniteSize) := by
    rw [infinite, decodeCount, Decoder.parse_bind_of_ok (VarInt.parse_toBytes_append _ suffix)]
    rfl
  rw [vector, Decoder.parse_bind_of_error counted]

theorem Canonical.vector {element : Codec α} (canonical : element.Canonical) :
    element.vector.Canonical := by
  rw [vector_eq_counted]
  refine canonical_counted fun {count bytes rest values} parsed => ?_
  rw [Decoder.parse_reserve] at parsed
  exact canonical.times parsed

theorem restores_varBytes : varBytes.Restores fun value => [⟨value.length, 1⟩] := by
  rw [varBytes_eq_counted]
  refine restores_counted fun {value inside} written suffix => ?_
  rw [Emission.toExcept_chunk] at written
  cases written
  refine ⟨fun _ => ?_, fun _ impossible => by cases impossible⟩
  rw [Decoder.bytes, Decoder.parse_take_append rfl, Decoder.parse_done]

theorem canonical_varBytes : varBytes.Canonical := by
  rw [varBytes_eq_counted]
  refine canonical_counted fun {count bytes rest value} parsed => ?_
  obtain ⟨front, suffix, rfl, size, read⟩ := Decoder.parse_take_eq_ok parsed
  cases read
  exact ⟨size, value, Emission.toExcept_chunk _, rfl⟩

/-! ## Texts -/

theorem serialize_varString_eq_ok {text : Text} {bytes : Bytes} :
    varString.serialize text = .ok bytes
      ↔ text.isWellFormed = true ∧ varBytes.serialize text.toUtf8 = .ok bytes := by
  rw [serialize, varString]
  dsimp only
  split
  · next wellFormed => simp [wellFormed, serialize]
  · next malformed => simp [malformed]

theorem restores_varString : varString.Restores fun text => [⟨text.toUtf8.length, 1⟩] where
  restored {text bytes} written allowed suffix := by
    obtain ⟨wellFormed, inside⟩ := serialize_varString_eq_ok.mp written
    rw [varString, Decoder.parse_bind_of_ok (restores_varBytes.restored inside allowed suffix),
      Text.ofUtf8?_toUtf8 wellFormed, Decoder.parse_done]
  refused {text bytes error} written refusal suffix := by
    obtain ⟨_, inside⟩ := serialize_varString_eq_ok.mp written
    rw [varString, Decoder.parse_bind_of_error (restores_varBytes.refused inside refusal suffix)]

theorem canonical_varString : varString.Canonical := by
  intro bytes rest text parsed
  obtain ⟨encoded, left, first, second⟩ := Decoder.parse_bind_eq_ok parsed
  split at second
  · next found read =>
    cases second
    obtain ⟨wellFormed, rfl⟩ := Text.toUtf8_of_ofUtf8? read
    obtain ⟨front, written, split⟩ := canonical_varBytes _ _ _ first
    exact ⟨front, serialize_varString_eq_ok.mpr ⟨wellFormed, written⟩, split⟩
  · cases second

/-! ## Checked data -/

/-- Checked data are a length, a checksum and the data, one after the other. -/
theorem encode_checkedData (value : Bytes) :
    checkedData.encode value
      = (u32.encode (.int value.length)).andThen
          ((Emission.chunk (checksum value)).andThen (.chunk value)) :=
  Emission.bind_bind_bind _ _ _

theorem serialize_checkedData_eq_ok {value bytes : Bytes} :
    checkedData.serialize value = .ok bytes
      ↔ value.length < 0x100000000
          ∧ bytes = ByteOrder.little.write 4 value.length ++ (checksum value ++ value) := by
  have inside : ((Emission.chunk (checksum value)).andThen (.chunk value)).toExcept
      = .ok (checksum value ++ value) :=
    Emission.toExcept_andThen_eq_ok.mpr
      ⟨_, _, Emission.toExcept_chunk _, Emission.toExcept_chunk _, rfl⟩
  rw [serialize, encode_checkedData, Emission.toExcept_andThen_eq_ok, inside]
  constructor
  · rintro ⟨front, back, wroteLength, ⟨⟩, rfl⟩
    obtain ⟨length, ⟨⟩, ⟨_, upper⟩, rfl⟩ := serialize_unsigned_eq_ok.mp wroteLength
    exact ⟨Int.ofNat_lt.mp upper, rfl⟩
  · rintro ⟨small, rfl⟩
    exact ⟨_, _, serialize_unsigned_eq_ok.mpr
      ⟨_, rfl, ⟨Int.natCast_nonneg _, Int.ofNat_lt.mpr small⟩, rfl⟩, rfl, rfl⟩

/-- The length field of data that fits it is read back. -/
theorem toNat_write_length {length : Nat} (small : length < 0x100000000) :
    Bytes.toNat (ByteOrder.little.write 4 length) = length := by
  have read : (ByteOrder.little.read (ByteOrder.little.write 4 length) : Int) = length :=
    ByteOrder.read_write_of_lt (Int.natCast_nonneg length) (Int.ofNat_lt.mpr small)
  exact Int.ofNat.inj read

theorem restores_checkedData : checkedData.Restores fun value => [⟨value.length, 1⟩] where
  restored {value bytes} written allowed suffix := by
    obtain ⟨small, rfl⟩ := serialize_checkedData_eq_ok.mp written
    rw [checkedData, List.append_assoc, List.append_assoc,
      Decoder.parse_take_append (ByteOrder.length_write _ _ _), toNat_write_length small,
      Decoder.ofResult_checkAllocation, Demand.withinCeiling_eq, allowed, Decoder.ofExcept,
      Decoder.bind, Decoder.parse_take_append (length_checksum _), Decoder.parse_take_append rfl, if_pos rfl,
      Decoder.parse_done]
  refused {value bytes error} written refusal suffix := by
    obtain ⟨small, rfl⟩ := serialize_checkedData_eq_ok.mp written
    rw [checkedData, List.append_assoc, Decoder.parse_take_append (ByteOrder.length_write _ _ _),
      toNat_write_length small, Decoder.ofResult_checkAllocation, Demand.withinCeiling_eq, refusal]
    rfl

/-- Data within the ceiling fit the length field. -/
theorem serialize_checkedData_of_fits {data : Bytes} (fits : data.length ≤ maxSequenceSize) :
    checkedData.serialize data
      = .ok (ByteOrder.little.write 4 data.length ++ (checksum data ++ data)) := by
  have field : maxSequenceSize < 0x100000000 := by decide
  exact serialize_checkedData_eq_ok.mpr ⟨Nat.lt_of_le_of_lt fits field, rfl⟩

/-- Data are read exactly if they are within the ceiling and stand behind their own
length and checksum. -/
theorem parse_checkedData_eq_ok {bytes rest data : Bytes} :
    checkedData.decode.parse bytes = (.ok data, rest)
      ↔ data.length ≤ maxSequenceSize
          ∧ bytes = ByteOrder.little.write 4 data.length ++ (checksum data ++ data) ++ rest := by
  constructor
  · intro parsed
    obtain ⟨length, behind, rfl, lengthSize, parsed⟩ := Decoder.parse_take_eq_ok parsed
    obtain ⟨count, _, checked, parsed⟩ := Decoder.parse_bind_eq_ok parsed
    rw [Decoder.ofResult_checkAllocation] at checked
    obtain ⟨allowed, rfl⟩ := Decoder.parse_ofExcept_eq_ok checked
    obtain ⟨claimed, behind, rfl, claimedSize, parsed⟩ := Decoder.parse_take_eq_ok parsed
    obtain ⟨found, behind, rfl, dataSize, parsed⟩ := Decoder.parse_take_eq_ok parsed
    dsimp only at parsed
    split at parsed
    · next agree =>
      cases parsed
      obtain ⟨rfl, room⟩ := Demand.withinCeiling_eq_ok allowed
      have prefixed := ByteOrder.little.write_read length
      rw [lengthSize] at prefixed
      constructor
      · rw [dataSize]
        exact Nat.le_trans (Nat.le_of_eq (Nat.mul_one _).symm) room
      · rw [dataSize, agree, List.append_assoc, List.append_assoc]
        exact congrArg (· ++ (claimed ++ (data ++ rest))) prefixed.symm
    · cases parsed
  · rintro ⟨fits, rfl⟩
    exact restores_checkedData.restored (serialize_checkedData_of_fits fits)
      (Demand.refusal?_of_fits fits) rest

theorem canonical_checkedData : checkedData.Canonical := by
  intro bytes rest data parsed
  obtain ⟨fits, split⟩ := parse_checkedData_eq_ok.mp parsed
  exact ⟨_, serialize_checkedData_of_fits fits, split⟩

end Codec

/-! ## Command names -/

namespace Command

theorem checkName_eq_ok {name : Text} {bytes : Bytes} :
    checkName name = .ok bytes
      ↔ bytes = name.toUtf8 ∧ bytes.isAscii = true ∧ 0 ∉ bytes ∧ bytes.length ≤ fieldSize := by
  rw [checkName]
  split
  · next bad =>
    constructor
    · rintro ⟨⟩
    · rintro ⟨rfl, ascii, noNul, _⟩
      simp [ascii, noNul] at bad
  · next good =>
    rw [Bool.not_eq_true, Bool.or_eq_false_iff, Bool.not_eq_false', List.contains_eq_mem,
      decide_eq_false_iff_not] at good
    split
    · next long =>
      constructor
      · rintro ⟨⟩
      · rintro ⟨rfl, _, _, short⟩
        exact absurd long (Nat.not_lt.mpr short)
    · next short =>
      constructor
      · rintro ⟨⟩
        exact ⟨rfl, good.1, good.2, Nat.not_lt.mp short⟩
      · rintro ⟨rfl, _⟩
        rfl

/-- A byte string is what is left of it without the NULs at its end, and then NULs. -/
theorem exists_eq_trim_append (bytes : Bytes) :
    ∃ count, bytes = trim bytes ++ List.replicate count 0 := by
  have zeros : bytes.reverse.takeWhile (· = 0)
      = List.replicate (bytes.reverse.takeWhile (· = 0)).length 0 := by
    refine List.eq_replicate_of_mem fun byte inside => ?_
    simpa using List.all_eq_true.mp List.all_takeWhile byte inside
  have split : bytes.reverse.takeWhile (· = 0) ++ bytes.reverse.dropWhile (· = 0)
      = bytes.reverse := List.takeWhile_append_dropWhile
  refine ⟨(bytes.reverse.takeWhile (· = 0)).length, ?_⟩
  rw [← List.reverse_inj, List.reverse_append, List.reverse_replicate, ← zeros, trim,
    List.reverse_reverse, split]

/-- A field is rebuilt from what is left of it without the NULs at its end. -/
theorem field_trim {bytes : Bytes} (size : bytes.length = fieldSize) :
    field (trim bytes) = bytes := by
  obtain ⟨count, padded⟩ := exists_eq_trim_append bytes
  have length := congrArg List.length padded
  rw [List.length_append, List.length_replicate, size] at length
  have gap : fieldSize - (trim bytes).length = count := by omega
  rw [field, gap]
  exact padded.symm

/-- Nothing is trimmed off bytes without NUL but the NULs put behind them. -/
theorem trim_field {bytes : Bytes} (noNul : 0 ∉ bytes) : trim (field bytes) = bytes := by
  have zeros : ∀ byte ∈ List.replicate (fieldSize - bytes.length) (0 : UInt8),
      decide (byte = 0) = true := by
    intro byte inside
    rw [List.eq_of_mem_replicate inside, decide_eq_true rfl]
  have kept : bytes.reverse.dropWhile (· = 0) = bytes.reverse := by
    cases backwards : bytes.reverse with
    | nil => rfl
    | cons last rest =>
      have inside : last ∈ bytes :=
        List.mem_reverse.mp (by rw [backwards]; exact List.mem_cons_self)
      refine List.dropWhile_cons_of_neg ?_
      simpa using fun zero : last = 0 => noNul (zero ▸ inside)
  rw [trim, field, List.reverse_append, List.reverse_replicate,
    List.dropWhile_append_of_pos zeros, kept, List.reverse_reverse]

theorem length_field {bytes : Bytes} (short : bytes.length ≤ fieldSize) :
    (field bytes).length = fieldSize := by
  rw [field, List.length_append, List.length_replicate, Nat.add_sub_cancel' short]

theorem nameOfField_eq_ok {bytes : Bytes} {name : Text} :
    nameOfField bytes = .ok name
      ↔ 0 ∉ trim bytes ∧ (trim bytes).isAscii = true
          ∧ name = ⟨(trim bytes).map UInt8.toUInt16⟩ := by
  rw [nameOfField]
  split
  · next nul =>
    rw [List.contains_eq_mem, decide_eq_true_eq] at nul
    simp [nul]
  · next noNul =>
    rw [List.contains_eq_mem, decide_eq_true_eq] at noNul
    split
    · next ascii => simp [noNul, ascii, eq_comm]
    · next other => simp [other]

theorem serialize_codec_eq_ok {name : Text} {bytes : Bytes} :
    codec.serialize name = .ok bytes
      ↔ (name.toUtf8.isAscii = true ∧ 0 ∉ name.toUtf8 ∧ name.toUtf8.length ≤ fieldSize)
          ∧ bytes = field name.toUtf8 := by
  rw [Codec.serialize, codec, Emission.toExcept_ofExcept_eq_ok]
  simp only [checkName_eq_ok, Emission.toExcept_chunk]
  constructor
  · rintro ⟨_, ⟨rfl, checked⟩, ⟨⟩⟩
    exact ⟨checked, rfl⟩
  · rintro ⟨checked, rfl⟩
    exact ⟨_, ⟨rfl, checked⟩, rfl⟩

theorem restores_codec : codec.Restores fun _ => [] := by
  refine .of_parse_append fun {name bytes} written suffix => ?_
  obtain ⟨⟨ascii, noNul, short⟩, rfl⟩ := serialize_codec_eq_ok.mp written
  have read : nameOfField (field name.toUtf8) = .ok name := by
    rw [nameOfField_eq_ok, trim_field noNul]
    exact ⟨noNul, ascii, Text.eq_of_isAscii_toUtf8 ascii⟩
  rw [codec, Decoder.parse_take_append (length_field short), read, Decoder.ofExcept,
    Decoder.parse_done]

theorem canonical_codec : codec.Canonical := by
  intro bytes rest name parsed
  obtain ⟨front, behind, rfl, size, checked⟩ := Decoder.parse_take_eq_ok parsed
  obtain ⟨read, rfl⟩ := Decoder.parse_ofExcept_eq_ok checked
  obtain ⟨noNul, ascii, rfl⟩ := nameOfField_eq_ok.mp read
  have written := Text.toUtf8_of_isAscii ascii
  obtain ⟨count, padded⟩ := exists_eq_trim_append front
  have short : (trim front).length ≤ fieldSize := by
    have length := congrArg List.length padded
    rw [List.length_append] at length
    omega
  refine ⟨front, serialize_codec_eq_ok.mpr ?_, rfl⟩
  rw [written, field_trim size]
  exact ⟨⟨ascii, noNul, short⟩, rfl⟩

end Command

end PeerWire
