import Mathlib.Tactic.SplitIfs
import PeerWire.Proofs.ScalarLaws

/-!
# The shortest form of a magnitude

A magnitude can stand on the wire in up to four forms, of one, three, five or nine bytes. All
but the first begin with a marker, and each of them can hold whatever a shorter one can. What
is written is the shortest form that holds the magnitude (`VarInt.toBytes_eq`), and
`VarInt.encodedLength` is its length.

Reading has three outcomes, and the front of the input decides between them
(`VarInt.outcome_parse`). It has a value exactly on the shortest form of that value
(`VarInt.parse_eq_ok_iff`). It refuses a complete form whose magnitude fits a shorter one, after
taking all of it (`VarInt.parse_eq_nonMinimal_iff`). It reports the end of the input when there
is no first byte, or when the bytes that a marker announces are not all there
(`VarInt.exists_parse_io_iff`).
-/

set_option autoImplicit false

attribute [local instance (high)] instPowNat

namespace PeerWire

namespace VarInt

/-! ## Forms -/

/-- The forms in which a magnitude can stand on the wire. -/
inductive Form where
  | bare
  | wide16
  | wide32
  | wide64
  deriving DecidableEq

namespace Form

/-- The byte that announces a form; the shortest one has none. -/
def marker? : Form → Option UInt8
  | bare => none
  | wide16 => some marker16
  | wide32 => some marker32
  | wide64 => some marker64

/-- The number of bytes that hold the magnitude. -/
def width : Form → Nat
  | bare => 1
  | wide16 => 2
  | wide32 => 4
  | wide64 => 8

/-- The number of bytes in all. -/
def length : Form → Nat
  | bare => 1
  | wide16 => 3
  | wide32 => 5
  | wide64 => 9

/-- The magnitudes below this one can stand in a form. A bare byte must be no marker. -/
def capacity : Form → Nat
  | bare => 0xfd
  | wide16 => 0x10000
  | wide32 => 0x100000000
  | wide64 => 2 ^ (64 : Nat)

/-- The bytes of a magnitude in a form. -/
def bytes (form : Form) (value : Nat) : Bytes :=
  form.marker?.toList ++ Bytes.ofNat form.width value

@[simp] theorem length_bytes (form : Form) (value : Nat) :
    (form.bytes value).length = form.length := by
  cases form <;> simp [bytes, marker?, width, length]

theorem bytes_of_marker {form : Form} {marker : UInt8} (marked : form.marker? = some marker)
    (value : Nat) : form.bytes value = marker :: Bytes.ofNat form.width value := by
  rw [bytes, marked]
  rfl

/-- The largest magnitude that fits a form shorter than a marked one. -/
def floor : Form → Nat
  | bare => 0
  | wide16 => 0xfc
  | wide32 => 0xffff
  | wide64 => 0xffffffff

/-- A magnitude fits a shorter form if it is not above the floor of a marked one. -/
theorem exists_shorter_iff {form : Form} {marker : UInt8} (marked : form.marker? = some marker)
    {value : Nat} :
    (∃ shorter : Form, shorter.length < form.length ∧ value < shorter.capacity)
      ↔ value ≤ form.floor := by
  constructor
  · rintro ⟨shorter, less, held⟩
    cases form <;> cases shorter <;> simp only [length, capacity, floor] at less held ⊢ <;> omega
  · intro small
    cases form with
    | bare => cases marked
    | wide16 => exact ⟨bare, by decide, Nat.lt_succ_of_le small⟩
    | wide32 => exact ⟨wide16, by decide, Nat.lt_succ_of_le small⟩
    | wide64 => exact ⟨wide32, by decide, Nat.lt_succ_of_le small⟩

/-- The form that a magnitude is written in. -/
def shortest (value : Nat) : Form :=
  if value < 0xfd then bare
  else if value ≤ 0xffff then wide16
  else if value ≤ 0xffffffff then wide32
  else wide64

/-- A 64-bit magnitude fits its form, and every other form that it fits is at least as long. -/
theorem isLeast_shortest {value : Nat} (fits : value < 2 ^ (64 : Nat)) :
    value < (shortest value).capacity
      ∧ ∀ other : Form, value < other.capacity → (shortest value).length ≤ other.length := by
  unfold shortest
  refine ⟨?_, fun other held => ?_⟩
  · split_ifs <;> simp only [capacity] <;> omega
  · split_ifs <;> cases other <;> simp only [capacity, length] at held ⊢ <;> omega

end Form

/-! ## Writing -/

theorem toBytes_eq (varInt : VarInt) :
    varInt.toBytes = (Form.shortest varInt.value.toNat).bytes varInt.value.toNat := by
  rw [toBytes, Form.shortest]
  split_ifs <;> rfl

theorem encodedLength_eq (varInt : VarInt) :
    varInt.encodedLength = (Form.shortest varInt.value.toNat).length := by
  rw [encodedLength, Form.shortest]
  split_ifs <;> rfl

/-- The magnitude of an integer that fits 64 bits. -/
theorem exists_ofInt {value : Int} (lower : 0 ≤ value) (upper : value < 2 ^ (64 : Nat)) :
    ∃ varInt, ofInt value = .ok varInt ∧ varInt.value.toNat = value.toNat := by
  have fits : isUnsigned64 value = true := isUnsigned64_iff.mpr ⟨lower, upper⟩
  refine ⟨⟨UInt64.ofNat value.toNat⟩, ?_, ?_⟩
  · rw [ofInt, if_pos fits]
  · rw [UInt64.toNat_ofNat', Nat.mod_eq_of_lt (by omega)]

/-- A safe integer has the same magnitude as a number. -/
theorem ofNumber_int {value : Int} (lower : 0 ≤ value) (safe : value ≤ Number.maxSafe) :
    ofNumber (.int value) = ofInt value := by
  have isSafe : (Number.int value).isSafe = true := by
    rw [Number.isSafe, decide_eq_true_eq]
    omega
  rw [ofNumber, if_pos isSafe, Number.truncate]

/-! ## Reading -/

/-- Behind a marker: the bytes that hold the magnitude are missing, or it fits a shorter form,
or it is read. -/
theorem parse_decodeWide (width shorter : Nat) (tail : Bytes) :
    (decodeWide width shorter).parse tail
      = if width ≤ tail.length then
          (if (Bytes.toNat (tail.take width)) ≤ shorter then
              .error (.consensus .nonMinimalVarInt)
            else .ok ⟨UInt64.ofNat (Bytes.toNat (tail.take width))⟩, tail.drop width)
        else (.error (.consensus (.io (.exhausted width tail.length))), []) := by
  rw [decodeWide, Decoder.parse]
  split_ifs <;> rfl

/-- A marked form is read behind its marker. -/
theorem parse_of_marker {form : Form} {marker : UInt8} (marked : form.marker? = some marker)
    (tail : Bytes) :
    decode.parse (marker :: tail) = (decodeWide form.width form.floor).parse tail := by
  cases form with
  | bare => cases marked
  | wide16 | wide32 | wide64 =>
    cases marked
    rw [parse_cons]
    rfl

/-- A first byte that is no marker is a magnitude. -/
theorem parse_of_no_marker {first : UInt8} (unmarked : ∀ form : Form, form.marker? ≠ some first)
    (tail : Bytes) : decode.parse (first :: tail) = (.ok ⟨UInt64.ofNat first.toNat⟩, tail) := by
  have not64 : first ≠ marker64 := fun same => unmarked .wide64 (congrArg some same.symm)
  have not32 : first ≠ marker32 := fun same => unmarked .wide32 (congrArg some same.symm)
  have not16 : first ≠ marker16 := fun same => unmarked .wide16 (congrArg some same.symm)
  rw [parse_cons, if_neg not64, if_neg not32, if_neg not16, Decoder.parse_done]

/-- What can come of reading a magnitude, and from which bytes. -/
inductive Outcome : Bytes → Except Failure VarInt × Bytes → Prop where
  /-- There is no first byte. -/
  | ended : Outcome [] (.error (.consensus (.io (.exhausted 1 0))), [])
  /-- The first byte is no marker, and is the magnitude. -/
  | bare {first : UInt8} {rest : Bytes} : (∀ form : Form, form.marker? ≠ some first) →
      Outcome (first :: rest) (.ok ⟨UInt64.ofNat first.toNat⟩, rest)
  /-- There are not as many bytes as the marker announces. -/
  | cut {form : Form} {marker : UInt8} {tail : Bytes} : form.marker? = some marker →
      tail.length < form.width →
        Outcome (marker :: tail)
          (.error (.consensus (.io (.exhausted form.width tail.length))), [])
  /-- The form is complete, and a shorter one holds its magnitude. -/
  | overlong {form : Form} {value : Nat} {rest : Bytes} : value < 256 ^ form.width →
      (∃ shorter : Form, shorter.length < form.length ∧ value < shorter.capacity) →
        Outcome (form.bytes value ++ rest) (.error (.consensus .nonMinimalVarInt), rest)
  /-- The form is complete, and no shorter one holds its magnitude. -/
  | wide {form : Form} {value : Nat} {rest : Bytes} : value < 256 ^ form.width →
      (¬ ∃ shorter : Form, shorter.length < form.length ∧ value < shorter.capacity) →
        Outcome (form.bytes value ++ rest) (.ok ⟨UInt64.ofNat value⟩, rest)

theorem outcome_parse (bytes : Bytes) : Outcome bytes (decode.parse bytes) := by
  cases bytes with
  | nil => exact .ended
  | cons first tail =>
    by_cases announced : ∃ form : Form, form.marker? = some first
    · obtain ⟨form, marked⟩ := announced
      rw [parse_of_marker marked, parse_decodeWide]
      by_cases held : form.width ≤ tail.length
      · have size : (tail.take form.width).length = form.width := by
          rw [List.length_take, Nat.min_eq_left held]
        have written := Bytes.ofNat_toNat (tail.take form.width)
        have bound := Bytes.toNat_lt (tail.take form.width)
        rw [size] at written bound
        have whole : first :: tail
            = form.bytes (Bytes.toNat (tail.take form.width)) ++ tail.drop form.width := by
          rw [Form.bytes_of_marker marked, written, List.cons_append, List.take_append_drop]
        rw [if_pos held, whole]
        split_ifs with small
        · exact .overlong bound ((Form.exists_shorter_iff marked).mpr small)
        · exact .wide bound (mt (Form.exists_shorter_iff marked).mp small)
      · rw [if_neg held]
        exact .cut marked (Nat.not_le.mp held)
    · have unmarked := not_exists.mp announced
      rw [parse_of_no_marker unmarked]
      exact .bare unmarked

/-- A value is read from its shortest form, and from nothing else. -/
theorem parse_eq_ok_iff {bytes rest : Bytes} {varInt : VarInt} :
    decode.parse bytes = (.ok varInt, rest) ↔ bytes = varInt.toBytes ++ rest := by
  constructor
  · exact eq_toBytes_of_parse
  · rintro rfl
    exact parse_toBytes_append varInt rest

/-- A form is refused when it is complete and a shorter one holds its magnitude. -/
theorem parse_eq_nonMinimal_iff {bytes rest : Bytes} :
    decode.parse bytes = (.error (.consensus .nonMinimalVarInt), rest)
      ↔ ∃ (form : Form) (value : Nat), bytes = form.bytes value ++ rest ∧ value < 256 ^ form.width
          ∧ ∃ shorter : Form, shorter.length < form.length ∧ value < shorter.capacity := by
  constructor
  · intro refused
    have outcome := outcome_parse bytes
    rw [refused] at outcome
    cases outcome with
    | overlong bound shorter => exact ⟨_, _, rfl, bound, shorter⟩
  · rintro ⟨form, value, rfl, bound, shorter, less, held⟩
    cases isMarked : form.marker? with
    | none =>
      cases form <;> cases isMarked
      cases shorter <;> simp only [Form.length] at less <;> omega
    | some marker =>
      have small := (Form.exists_shorter_iff isMarked).mp ⟨shorter, less, held⟩
      have number : Bytes.toNat (Bytes.ofNat form.width value) = value := by
        rw [Bytes.toNat_ofNat, Nat.mod_eq_of_lt bound]
      rw [Form.bytes_of_marker isMarked, List.cons_append, parse_of_marker isMarked, decodeWide,
        Decoder.parse_take_append (Bytes.length_ofNat _ _), number, if_pos small]
      rfl

/-- Input errors come from an input without a first byte, or without all bytes that its marker
announces. -/
theorem exists_parse_io_iff {bytes : Bytes} :
    (∃ problem, (decode.parse bytes).1 = .error (.consensus (.io problem)))
      ↔ bytes = [] ∨ ∃ (form : Form) (marker : UInt8) (tail : Bytes),
          form.marker? = some marker ∧ bytes = marker :: tail ∧ tail.length < form.width := by
  constructor
  · rintro ⟨problem, failed⟩
    have outcome := outcome_parse bytes
    generalize decode.parse bytes = result at failed outcome
    cases outcome with
    | ended => exact .inl rfl
    | cut marked short => exact .inr ⟨_, _, _, marked, rfl, short⟩
    | bare | overlong | wide => cases failed
  · rintro (rfl | ⟨form, marker, tail, marked, rfl, short⟩)
    · exact ⟨.exhausted 1 0, rfl⟩
    · refine ⟨.exhausted form.width tail.length, ?_⟩
      rw [parse_of_marker marked, parse_decodeWide, if_neg (Nat.not_le.mpr short)]

/-- There is no other way for reading to fail. -/
theorem eq_nonMinimal_or_io_of_parse {bytes : Bytes} {failure : Failure}
    (failed : (decode.parse bytes).1 = .error failure) :
    failure = .consensus .nonMinimalVarInt ∨ ∃ problem, failure = .consensus (.io problem) := by
  have outcome := outcome_parse bytes
  generalize decode.parse bytes = result at failed outcome
  cases outcome with
  | ended | cut =>
    cases failed
    exact .inr ⟨_, rfl⟩
  | overlong =>
    cases failed
    exact .inl rfl
  | bare | wide => cases failed

/-! ## Written and read -/

/-- Every integer of 64 bits without sign is written, as one chunk, in the shortest of the forms
that hold it, and as a number too if it is safe. That form is as long as the magnitude says,
and is read back in front of any bytes.

Reading a byte string has a value exactly if the string begins with what is written of the
value, and takes as much. It refuses a complete form whose magnitude a shorter form holds, and
then has taken the form. It reports the end of the input exactly if there is no first byte, or
fewer bytes than the marker announces. It ends in one of these three ways. -/
theorem shortest_and_unambiguous :
    (∀ value : Int, 0 ≤ value → value < 2 ^ (64 : Nat) →
        ∃ (varInt : VarInt) (form : Form),
          ofInt value = .ok varInt
            ∧ (value.toNat < form.capacity
              ∧ ∀ other : Form, value.toNat < other.capacity → form.length ≤ other.length)
            ∧ emit (ofInt value) = .chunk (form.bytes value.toNat)
            ∧ (value ≤ Number.maxSafe →
                emit (ofNumber (.int value)) = .chunk (form.bytes value.toNat))
            ∧ varInt.toBytes = form.bytes value.toNat
            ∧ (form.bytes value.toNat).length = varInt.encodedLength
            ∧ ∀ suffix, decode.deserializePartial (form.bytes value.toNat ++ suffix)
                = .ok ⟨varInt, form.length⟩)
      ∧ ∀ bytes : Bytes,
          (∀ varInt consumed,
              decode.deserializePartial bytes = .ok ⟨varInt, consumed⟩
                ↔ varInt.toBytes <+: bytes ∧ consumed = varInt.toBytes.length)
            ∧ (∀ consumed,
                ((decode.runOver bytes).1 = .error (.consensus .nonMinimalVarInt)
                    ∧ (decode.runOver bytes).2.consumed = consumed)
                  ↔ ∃ (form : Form) (value : Nat), form.bytes value <+: bytes
                      ∧ value < 256 ^ form.width
                      ∧ (∃ shorter : Form, shorter.length < form.length
                          ∧ value < shorter.capacity)
                      ∧ consumed = form.length)
            ∧ ((∃ problem, (decode.runOver bytes).1 = .error (.consensus (.io problem)))
                ↔ bytes = [] ∨ ∃ (form : Form) (marker : UInt8) (tail : Bytes),
                    form.marker? = some marker ∧ bytes = marker :: tail
                      ∧ tail.length < form.width)
            ∧ ∀ failure, (decode.runOver bytes).1 = .error failure →
                failure = .consensus .nonMinimalVarInt
                  ∨ ∃ problem, failure = .consensus (.io problem) := by
  constructor
  · intro value lower upper
    obtain ⟨varInt, magnitude, same⟩ := exists_ofInt lower upper
    have least := Form.isLeast_shortest (show value.toNat < 2 ^ (64 : Nat) by omega)
    have written := toBytes_eq varInt
    have length := encodedLength_eq varInt
    rw [same] at written length
    have emitted : emit (ofInt value) = .chunk ((Form.shortest value.toNat).bytes value.toNat) := by
      rw [emit, magnitude, Emission.ofExcept, written]
    refine ⟨varInt, Form.shortest value.toNat, magnitude, least, emitted, ?_, written, ?_, ?_⟩
    · intro safe
      rw [ofNumber_int lower safe]
      exact emitted
    · rw [Form.length_bytes, length]
    · intro suffix
      rw [← Form.length_bytes _ value.toNat, ← written]
      exact Decoder.deserializePartial_append (parse_toBytes_append varInt suffix)
  · intro bytes
    simp only [Decoder.consumed_runOver, congrArg Prod.fst (Decoder.runOver_eq decode bytes)]
    refine ⟨?_, ?_, exists_parse_io_iff, fun failure => eq_nonMinimal_or_io_of_parse⟩
    · intro varInt consumed
      constructor
      · intro read
        obtain ⟨within, parsed⟩ := Decoder.parse_of_deserializePartial read
        have front := parse_eq_ok_iff.mp parsed
        have size := congrArg List.length front
        rw [List.length_append, List.length_drop] at size
        exact ⟨⟨_, front.symm⟩, by omega⟩
      · rintro ⟨⟨rest, rfl⟩, rfl⟩
        exact Decoder.deserializePartial_append (parse_toBytes_append varInt rest)
    · intro consumed
      constructor
      · rintro ⟨refused, taken⟩
        have parsed : decode.parse bytes
            = (.error (.consensus .nonMinimalVarInt), (decode.parse bytes).2) :=
          Prod.ext refused rfl
        obtain ⟨form, value, front, bound, shorter⟩ := parse_eq_nonMinimal_iff.mp parsed
        have size := congrArg List.length front
        rw [List.length_append, Form.length_bytes] at size
        exact ⟨form, value, ⟨_, front.symm⟩, bound, shorter, by omega⟩
      · rintro ⟨form, value, ⟨rest, rfl⟩, bound, shorter, rfl⟩
        have refused : decode.parse (form.bytes value ++ rest)
            = (.error (.consensus .nonMinimalVarInt), rest) :=
          parse_eq_nonMinimal_iff.mpr ⟨form, value, rfl, bound, shorter⟩
        rw [refused, List.length_append, Form.length_bytes, Nat.add_sub_cancel]
        exact ⟨rfl, rfl⟩

/-- The smallest magnitude of five bytes is written in them. Three bytes hold 253, which is read;
they can hold 252 too, but that is refused. Two of the three are not enough. -/
theorem shortest_and_unambiguous_boundaries :
    emit (ofInt 0x10000) = .chunk [0xfe, 0x00, 0x00, 0x01, 0x00]
      ∧ decode.deserializePartial [0xfd, 0xfd, 0x00, 0x07] = .ok ⟨⟨0xfd⟩, 3⟩
      ∧ ((decode.runOver [0xfd, 0xfc, 0x00, 0x07]).1 = .error (.consensus .nonMinimalVarInt)
        ∧ (decode.runOver [0xfd, 0xfc, 0x00, 0x07]).2.consumed = 3)
      ∧ (∃ problem, (decode.runOver [0xfd, 0xfc]).1 = .error (.consensus (.io problem)))
      ∧ ∀ failure, (decode.runOver [0xfd, 0xfc]).1 = .error failure →
          ∃ problem, failure = .consensus (.io problem) := by
  obtain ⟨writes, reads⟩ := shortest_and_unambiguous
  obtain ⟨varInt, form, -, ⟨held, least⟩, emitted, -⟩ := writes 0x10000 (by decide) (by decide)
  have isWide32 : form = .wide32 := by
    cases form with
    | bare | wide16 => exact absurd held (by decide)
    | wide32 => rfl
    | wide64 => exact absurd (least .wide32 (by decide)) (by decide)
  subst isWide32
  refine ⟨emitted, ?_, ?_, ?_, ?_⟩
  · exact ((reads _).1 ⟨0xfd⟩ 3).mpr ⟨⟨[0x07], by decide⟩, by decide⟩
  · exact ((reads _).2.1 3).mpr
      ⟨.wide16, 0xfc, ⟨[0x07], rfl⟩, by decide, ⟨.bare, by decide, by decide⟩, rfl⟩
  · exact (reads _).2.2.1.mpr (.inr ⟨.wide16, 0xfd, [0xfc], rfl, rfl, by decide⟩)
  · intro failure failed
    obtain refused | input := (reads [0xfd, 0xfc]).2.2.2 failure failed
    · have ended : (decode.runOver [0xfd, 0xfc]).1
          = .error (.consensus (.io (.exhausted 2 1))) := by
        rw [Decoder.runOver_eq]
        rfl
      rw [ended, refused] at failed
      cases failed
    · exact input

end VarInt

end PeerWire
