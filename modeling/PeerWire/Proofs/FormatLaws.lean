import PeerWire.Format
import PeerWire.Proofs.FrameLaws

/-!
# Laws of formats

The laws of the codecs, put together along the structure of a format. A format with
no broken leaf is restored, up to the demands of its values: a sequence demands room
for its elements before any of them, and what stands behind a sequence makes its
demands after it. A format is canonical as long as no leaf has values of several
forms.

From the outside this says what comes of reading bytes that were written, followed
by anything, and what is written for a value that was read. Both need every field of a
record to keep what is assigned to it, which a field with the name of the prototype does
not (`Format.serialize_unmasked`). And a sequence can only be read if the size of its
elements is a number of bytes: nested pairs that share their parts outgrow that
(`Format.elementSize_tower`), and then not even the empty sequence is read back
(`Format.deserializePartial_of_infinite`).
-/

set_option autoImplicit false

attribute [local instance (high)] instPowNat

namespace PeerWire

/-! ## Leaves -/

mutual

/-- Whether all leaves of a format pass a test. -/
def Format.every (test : Format → Bool) : Format → Bool
  | .vector element => element.every test
  | .pair first second => first.every test && second.every test
  | .record fields => fields.every test
  | leaf => test leaf

/-- Whether all leaves of a record's fields pass a test. -/
def Fields.every (test : Format → Bool) : Fields → Bool
  | .nil => true
  | .cons _ format rest => format.every test && rest.every test

end

/-! ## Names and sizes -/

mutual

/-- Whether no record in a format has a field with the name of the prototype. -/
def Format.isOrdinary : Format → Bool
  | .vector element => element.isOrdinary
  | .pair first second => first.isOrdinary && second.isOrdinary
  | .record fields => fields.isOrdinary
  | _ => true

/-- Whether no field has the name of the prototype, in a record or inside its fields. -/
def Fields.isOrdinary : Fields → Bool
  | .nil => true
  | .cons (.ordinary ..) format rest => format.isOrdinary && rest.isOrdinary
  | .cons .prototype _ _ => false

end

mutual

/-- Whether the elements of all sequences in a format have a size that is a number of
bytes. -/
def Format.isSized : Format → Bool
  | .vector element => decide element.codec.elementSize.IsFinite && element.isSized
  | .pair first second => first.isSized && second.isSized
  | .record fields => fields.isSized
  | _ => true

/-- Whether the elements of all sequences in fields have a size that is a number of
bytes. -/
def Fields.isSized : Fields → Bool
  | .nil => true
  | .cons _ format rest => format.isSized && rest.isSized

end

namespace Format

/-- Whether a leaf can be used at all. -/
def isUsable : Format → Bool
  | .broken .. => false
  | _ => true

/-- Whether a leaf has one form for each value that it reads. Truth values have many,
and introductions and the messages that carry them end in one; a rejection may be
read that cannot be written. -/
def hasOneForm : Format → Bool
  | .truth _ | .versionMessage | .reject | .rawMessage | .broken .. => false
  | _ => true

end Format

/-! ## Demands -/

mutual

/-- The demands of a value, in the order of the wire. Elements of infinite size and what
is held under the name of a prototype are outside the law that the demands are for. -/
def Format.demands : (format : Format) → format.Val → List Demand
  | .varBytes, bytes => [⟨bytes.length, 1⟩]
  | .varString, text => [text.demand]
  | .checkedData, bytes => [⟨bytes.length, 1⟩]
  | .inventoryList, items => [Inventory.listDemand items]
  | .versionMessage, introduction => [introduction.userAgent.demand]
  | .reject, rejection => [rejection.message.demand, rejection.reason.demand]
  | .rawMessage, raw => raw.demands
  | .vector element, values =>
    ⟨values.length, element.codec.elementSize.toNat⟩ :: values.flatMap element.demands
  | .pair first second, value => first.demands value.1 ++ second.demands value.2
  | .record fields, value => fields.demands value
  | _, _ => []

/-- The demands of a record's value, field by field. -/
def Fields.demands : (fields : Fields) → fields.Val → List Demand
  | .nil, _ => []
  | .cons (.ordinary ..) format rest, value => format.demands value.1 ++ rest.demands value.2
  | .cons .prototype _ rest, value => rest.demands value.2

end

/-! ## Restoring -/

/-- What a codec counts for as an element has no part in its own law. -/
theorem Codec.Restores.resize {α : Type} {codec : Codec α} {demands : α → List Demand}
    (restores : codec.Restores demands) (size : Size) :
    { codec with elementSize := size }.Restores demands where
  restored written allowed suffix := restores.restored written allowed suffix
  refused written refusal suffix := restores.refused written refusal suffix

mutual

theorem Format.restores : (format : Format) → format.every Format.isUsable = true →
    format.isOrdinary = true → format.isSized = true → format.codec.Restores format.demands
  | .u8, _, _, _ => Codec.restores_unsigned .little 1
  | .u16, _, _, _ => Codec.restores_unsigned .little 2
  | .u32, _, _, _ => Codec.restores_unsigned .little 4
  | .u64, _, _, _ => Codec.restores_u64
  | .i8, _, _, _ => Codec.restores_signed .little 1
  | .i16, _, _, _ => Codec.restores_signed .little 2
  | .i32, _, _, _ => Codec.restores_signed .little 4
  | .i64, _, _, _ => Codec.restores_i64
  | .u16Network, _, _, _ => Codec.restores_unsigned .big 2
  | .truth false, _, _, _ => Codec.restores_bool
  | .truth true, _, _, _ => Codec.restores_bool.map Bool.not_not
  | .varInt, _, _, _ => VarInt.restores_codec
  | .fixedBytes length, _, _, _ => Codec.restores_fixedBytes length
  | .varBytes, _, _, _ => Codec.restores_varBytes
  | .varString, _, _, _ => Codec.restores_varString
  | .commandString, _, _, _ => Command.restores_codec
  | .checkedData, _, _, _ => Codec.restores_checkedData
  | .network, _, _, _ => Network.restores_codec
  | .serviceFlags, _, _, _ => ServiceFlags.restores_codec
  | .inventoryType, _, _, _ => InventoryType.restores_codec
  | .rejectReason, _, _, _ => RejectReason.restores_codec
  | .address, _, _, _ => Address.restores_codec
  | .inventory, _, _, _ => Inventory.restores_codec
  | .inventoryList, _, _, _ => Inventory.restores_listCodec
  | .versionMessage, _, _, _ => VersionMessage.restores_codec
  | .reject, _, _, _ => Reject.restores_codec
  | .rawMessage, _, _, _ => RawMessage.restores_codec
  | .broken .., usable, _, _ => by cases usable
  | .vector element, usable, ordinary, sized => by
    obtain ⟨finite, inside⟩ := Bool.and_eq_true_iff.mp sized
    exact (element.restores usable ordinary inside).vector (of_decide_eq_true finite)
  | .pair first second, usable, ordinary, sized => by
    obtain ⟨usableFirst, usableSecond⟩ := Bool.and_eq_true_iff.mp usable
    obtain ⟨ordinaryFirst, ordinarySecond⟩ := Bool.and_eq_true_iff.mp ordinary
    obtain ⟨sizedFirst, sizedSecond⟩ := Bool.and_eq_true_iff.mp sized
    exact (first.restores usableFirst ordinaryFirst sizedFirst).pair
      (second.restores usableSecond ordinarySecond sizedSecond)
  | .record fields, usable, ordinary, sized => fields.restores usable ordinary sized (.finite 0)

theorem Fields.restores : (fields : Fields) → fields.every Format.isUsable = true →
    fields.isOrdinary = true → fields.isSized = true →
      (earlier : Size) → (fields.codecBehind earlier).Restores fields.demands
  | .nil, _, _, _, earlier => Codec.restores_unit.resize earlier
  | .cons (.ordinary ..) format rest, usable, ordinary, sized, earlier => by
    obtain ⟨usableFirst, usableRest⟩ := Bool.and_eq_true_iff.mp usable
    obtain ⟨ordinaryFirst, ordinaryRest⟩ := Bool.and_eq_true_iff.mp ordinary
    obtain ⟨sizedFirst, sizedRest⟩ := Bool.and_eq_true_iff.mp sized
    have others := rest.restores usableRest ordinaryRest sizedRest
      (earlier + format.codec.elementSize)
    exact ((format.restores usableFirst ordinaryFirst sizedFirst).pair others).resize _
  | .cons .prototype _ _, _, ordinary, _, _ => by cases ordinary

end

/-! ## Being canonical -/

theorem Codec.Canonical.resize {α : Type} {codec : Codec α} (canonical : codec.Canonical)
    (size : Size) : { codec with elementSize := size }.Canonical := by
  intro bytes rest value parsed
  exact canonical bytes rest value parsed

mutual

theorem Format.canonical : (format : Format) → format.every Format.hasOneForm = true →
    format.isOrdinary = true → format.codec.Canonical
  | .u8, _, _ => Codec.canonical_unsigned .little 1
  | .u16, _, _ => Codec.canonical_unsigned .little 2
  | .u32, _, _ => Codec.canonical_unsigned .little 4
  | .u64, _, _ => Codec.canonical_u64
  | .i8, _, _ => Codec.canonical_signed .little 1
  | .i16, _, _ => Codec.canonical_signed .little 2
  | .i32, _, _ => Codec.canonical_signed .little 4
  | .i64, _, _ => Codec.canonical_i64
  | .u16Network, _, _ => Codec.canonical_unsigned .big 2
  | .varInt, _, _ => VarInt.canonical_codec
  | .fixedBytes length, _, _ => Codec.canonical_fixedBytes length
  | .varBytes, _, _ => Codec.canonical_varBytes
  | .varString, _, _ => Codec.canonical_varString
  | .commandString, _, _ => Command.canonical_codec
  | .checkedData, _, _ => Codec.canonical_checkedData
  | .network, _, _ => Network.canonical_codec
  | .serviceFlags, _, _ => ServiceFlags.canonical_codec
  | .inventoryType, _, _ => InventoryType.canonical_codec
  | .rejectReason, _, _ => RejectReason.canonical_codec
  | .address, _, _ => Address.canonical_codec
  | .inventory, _, _ => Inventory.canonical_codec
  | .inventoryList, _, _ => Inventory.canonical_listCodec
  | .truth _, single, _ | .versionMessage, single, _ | .reject, single, _
  | .rawMessage, single, _ | .broken .., single, _ => by cases single
  | .vector element, single, ordinary => (element.canonical single ordinary).vector
  | .pair first second, single, ordinary => by
    obtain ⟨singleFirst, singleSecond⟩ := Bool.and_eq_true_iff.mp single
    obtain ⟨ordinaryFirst, ordinarySecond⟩ := Bool.and_eq_true_iff.mp ordinary
    exact (first.canonical singleFirst ordinaryFirst).pair
      (second.canonical singleSecond ordinarySecond)
  | .record fields, single, ordinary => fields.canonical single ordinary (.finite 0)

theorem Fields.canonical : (fields : Fields) → fields.every Format.hasOneForm = true →
    fields.isOrdinary = true → (earlier : Size) → (fields.codecBehind earlier).Canonical
  | .nil, _, _, earlier => Codec.canonical_unit.resize earlier
  | .cons (.ordinary ..) format rest, single, ordinary, earlier => by
    obtain ⟨singleFirst, singleRest⟩ := Bool.and_eq_true_iff.mp single
    obtain ⟨ordinaryFirst, ordinaryRest⟩ := Bool.and_eq_true_iff.mp ordinary
    have others := rest.canonical singleRest ordinaryRest (earlier + format.codec.elementSize)
    exact ((format.canonical singleFirst ordinaryFirst).pair others).resize _
  | .cons .prototype _ _, _, ordinary, _ => by cases ordinary

end

/-! ## Written and read -/

/-- The first demand over the ceiling is the one that is refused. -/
theorem Demand.refusal?_of_first {earlier later : List Demand} {demand : Demand}
    (allowed : ∀ other ∈ earlier, other.room ≤ maxSequenceSize)
    (large : maxSequenceSize < demand.room) :
    refusal? (earlier ++ demand :: later) = some demand.refusal := by
  rw [refusal?_append, refusal?_eq_none_iff.mpr allowed, refusal?, if_neg (Nat.not_le.mpr large)]
  rfl

namespace Format

/-- Pairs of pairs, as deep as asked for, of integers of eight bytes. -/
def tower : (height : Nat) → Format
  | 0 => .u64
  | height + 1 => .pair (tower height) (tower height)

theorem every_tower {test : Format → Bool} (passes : test .u64 = true) (height : Nat) :
    (tower height).every test = true := by
  induction height with
  | zero => exact passes
  | succ height ih => exact Bool.and_eq_true_iff.mpr ⟨ih, ih⟩

theorem elementSize_tower_succ {height : Nat}
    (below : (tower height).codec.elementSize = .finite (2 ^ (height + 3))) :
    (tower (height + 1)).codec.elementSize = .nearest (2 ^ (height + 1 + 3)) := by
  have twice : 2 ^ (height + 3) + 2 ^ (height + 3) = 2 ^ (height + 1 + 3) := by
    rw [← Nat.mul_two, ← Nat.pow_succ]
  change (tower height).codec.elementSize + (tower height).codec.elementSize = _
  rw [below, Size.finite_add_finite, twice]

theorem elementSize_tower_of_le {height : Nat} (low : height ≤ 1020) :
    (tower height).codec.elementSize = .finite (2 ^ (height + 3)) := by
  induction height with
  | zero => rfl
  | succ height ih =>
    rw [elementSize_tower_succ (ih (Nat.le_of_succ_le low)), Size.nearest_two_pow,
      if_pos (by omega)]

/-- The size of a tower outgrows the numbers long before the tower is too high to be put
together, since its halves are the same format. -/
theorem elementSize_tower_of_lt {height : Nat} (high : 1020 < height) :
    (tower height).codec.elementSize = .infinite := by
  induction height with
  | zero => omega
  | succ height ih =>
    rcases Nat.lt_or_ge 1020 height with above | low
    · change (tower height).codec.elementSize + (tower height).codec.elementSize = _
      rw [ih above, Size.infinite_add]
    · rw [elementSize_tower_succ (elementSize_tower_of_le low), Size.nearest_two_pow,
        if_neg (by omega)]

theorem elementSize_tower : (tower 1021).codec.elementSize = .infinite :=
  elementSize_tower_of_lt (Nat.lt_succ_self 1020)

/-- Not even the empty sequence of elements of infinite size is read. -/
theorem deserializePartial_of_infinite {element : Format}
    (infinite : element.codec.elementSize = .infinite) (count : VarInt) (suffix : Bytes) :
    (vector element).codec.decode.deserializePartial (count.toBytes ++ suffix)
      = .error (.fault .infiniteSize) :=
  Decoder.deserializePartial_of_error (Codec.parse_vector_of_infinite infinite count suffix)

/-- A record of one byte under the name of the prototype. -/
def masked : Format :=
  .record (.cons .prototype .u8 .nil)

/-- What the record holds once a byte has been read: nothing of its own. -/
def unmasked : masked.Val :=
  (.lost rfl, ())

/-- Whatever the byte is that is read, the record afterwards is the same. -/
theorem deserializePartial_masked (byte : UInt8) (suffix : Bytes) :
    masked.codec.decode.deserializePartial (byte :: suffix) = .ok ⟨unmasked, 1⟩ := by
  have parsed : masked.codec.decode.parse ([byte] ++ suffix) = (.ok unmasked, suffix) := rfl
  exact Decoder.deserializePartial_append parsed

/-- What is written of a value comes back from any bytes that begin with it, and
nothing behind it is taken, if every demand of the value is within the ceiling.
Otherwise reading fails for the first demand that is not. The records keep what is
assigned to them, and elements have sizes in bytes. -/
theorem deserializePartial_of_serialize (format : Format)
    (usable : format.every isUsable = true) (ordinary : format.isOrdinary = true)
    (sized : format.isSized = true) {value : format.Val} {bytes : Bytes}
    (written : format.codec.serialize value = .ok bytes) (suffix : Bytes) :
    ((∀ demand ∈ format.demands value, demand.room ≤ maxSequenceSize) →
        format.codec.decode.deserializePartial (bytes ++ suffix) = .ok ⟨value, bytes.length⟩)
      ∧ ∀ earlier demand later, format.demands value = earlier ++ demand :: later →
          (∀ other ∈ earlier, other.room ≤ maxSequenceSize) → maxSequenceSize < demand.room →
            format.codec.decode.deserializePartial (bytes ++ suffix)
              = .error (.consensus
                  (if 2 ^ (64 : Nat) - 1 < demand.room then .parseFailed .invalidLength
                    else .oversizedAllocation demand.room (.int maxSequenceSize))) := by
  have outcome := (format.restores usable ordinary sized).deserializePartial_eq written suffix
  constructor
  · intro allowed
    rw [outcome, Demand.refusal?_eq_none_iff.mpr allowed]
  · intro earlier demand later split allowed large
    rw [outcome, split, Demand.refusal?_of_first allowed large]
    rfl

/-- Names with an inverted flag each, and a height. -/
def roster : Format :=
  .record (.cons (.ordinary "names" (by decide)) (.vector (.pair .varString (.truth true)))
    (.cons (.ordinary "height" (by decide)) .i32 .nil))

/-- As many empty texts as are charged eight bytes more than the ceiling. -/
def blanks : List Text :=
  List.replicate 166667 ⟨[]⟩

theorem length_blanks : blanks.length = 166667 :=
  List.length_replicate

theorem exists_serialize_blanks :
    ∃ bytes, (vector varString).codec.serialize blanks = .ok bytes := by
  refine Codec.exists_serialize_vector ?_ (by rw [length_blanks]; decide)
  intro text inside
  rw [List.eq_of_mem_replicate inside]
  exact ⟨[0], rfl⟩

/-- A roster is read back in front of another byte. Empty texts, each of which is
written as one byte, are refused for what they are charged. -/
theorem deserializePartial_of_serialize_roster :
    roster.codec.decode.deserializePartial
        ([2, 5, 0x61, 0xf0, 0x9f, 0x98, 0x80, 0, 0, 1, 0xfe, 0xff, 0xff, 0xff] ++ [7])
      = .ok ⟨([(⟨[0x61, 0xd83d, 0xde00]⟩, true), (⟨[]⟩, false)], .int (-2), ()), 14⟩
      ∧ ∃ bytes, (vector varString).codec.serialize blanks = .ok bytes
        ∧ (vector varString).codec.decode.deserializePartial bytes
          = .error (.consensus (.oversizedAllocation 4000008 (.int maxSequenceSize))) := by
  constructor
  · exact (deserializePartial_of_serialize roster rfl rfl (by decide +kernel) rfl [7]).1
      (by decide +kernel)
  · obtain ⟨bytes, written⟩ := exists_serialize_blanks
    have room : (Demand.mk blanks.length 24).room = 4000008 := by
      rw [length_blanks]
      rfl
    have refused := (deserializePartial_of_serialize (vector varString) rfl rfl rfl written []).2 []
      ⟨blanks.length, 24⟩ _ rfl (fun _ impossible => by cases impossible)
    rw [room, List.append_nil] at refused
    exact ⟨bytes, written, refused (by decide)⟩

/-- Two values that are written and do not come back: the empty sequence, if its elements
have an infinite size, and a record with a byte under the name of the prototype. -/
theorem not_restored :
    ((vector (tower 1021)).codec.serialize [] = .ok [0]
        ∧ (vector (tower 1021)).codec.decode.deserializePartial [0]
          = .error (.fault .infiniteSize))
      ∧ masked.codec.serialize (.own 5, ()) = .ok [5]
      ∧ masked.codec.decode.deserializePartial [5] ≠ .ok ⟨(.own 5, ()), 1⟩ := by
  refine ⟨⟨rfl, ?_⟩, rfl, ?_⟩
  · exact deserializePartial_of_infinite elementSize_tower ⟨0⟩ []
  · rw [deserializePartial_masked]
    intro same
    cases same

/-- What is written for a value that was read is what it was read from, so that no
other bytes are read as the same value. The records keep what is assigned to them. -/
theorem serialize_of_deserializePartial (format : Format)
    (single : format.every hasOneForm = true) (ordinary : format.isOrdinary = true)
    {bytes : Bytes} {value : format.Val} {consumed : Nat}
    (read : format.codec.decode.deserializePartial bytes = .ok ⟨value, consumed⟩) :
    consumed ≤ bytes.length
      ∧ format.codec.serialize value = .ok (bytes.take consumed)
      ∧ ∀ others othersConsumed,
          format.codec.decode.deserializePartial others = .ok ⟨value, othersConsumed⟩ →
            others.take othersConsumed = bytes.take consumed := by
  have written : ∀ given taken,
      format.codec.decode.deserializePartial given = .ok ⟨value, taken⟩ →
        format.codec.serialize value = .ok (given.take taken) := by
    intro given taken accepted
    obtain ⟨_, parsed⟩ := Decoder.parse_of_deserializePartial accepted
    obtain ⟨front, wrote, split⟩ := format.canonical single ordinary _ _ _ parsed
    have prefixed : given.take taken = front :=
      List.append_cancel_right ((List.take_append_drop taken given).trans split)
    rw [prefixed]
    exact wrote
  refine ⟨(Decoder.parse_of_deserializePartial read).1, written bytes consumed read, ?_⟩
  intro others othersConsumed accepted
  have same := (written others othersConsumed accepted).symm.trans (written bytes consumed read)
  exact Except.ok.inj same

/-- Magnitudes and a label. -/
def ledger : Format :=
  .record (.cons (.ordinary "counts" (by decide)) (.vector .varInt)
    (.cons (.ordinary "label" (by decide)) .varString .nil))

/-- Two magnitudes at the lower ends of their tiers, and a label that begins with a
byte order mark. -/
def ledgerValue : ledger.Val :=
  ([⟨0xfd⟩, ⟨0x10000⟩], ⟨[0xfeff, 0x61]⟩, ())

def ledgerBytes : Bytes :=
  [2, 0xfd, 0xfd, 0, 0xfe, 0, 0, 1, 0, 4, 0xef, 0xbb, 0xbf, 0x61]

theorem serialize_of_deserializePartial_ledger :
    ledger.codec.decode.deserializePartial (ledgerBytes ++ [9]) = .ok ⟨ledgerValue, 14⟩
      ∧ ledger.codec.serialize ledgerValue = .ok ledgerBytes
      ∧ ∀ others consumed,
          ledger.codec.decode.deserializePartial others = .ok ⟨ledgerValue, consumed⟩ →
            others.take consumed = ledgerBytes := by
  have wrote : ledger.codec.serialize ledgerValue = .ok ledgerBytes := rfl
  have read : ledger.codec.decode.deserializePartial (ledgerBytes ++ [9]) = .ok ⟨ledgerValue, 14⟩ :=
    (ledger.restores rfl rfl rfl).deserializePartial_eq wrote [9]
  obtain ⟨-, written, unique⟩ := serialize_of_deserializePartial ledger rfl rfl read
  exact ⟨read, written, unique⟩

/-- Under the name of the prototype every byte is read as the same value, and none is
written for that. -/
theorem serialize_unmasked :
    masked.every hasOneForm = true
      ∧ masked.codec.decode.deserializePartial [5] = .ok ⟨unmasked, 1⟩
      ∧ masked.codec.decode.deserializePartial [6] = .ok ⟨unmasked, 1⟩
      ∧ masked.codec.serialize unmasked = .error (.notNumeric objectText false 8) :=
  ⟨rfl, deserializePartial_masked 5 [], deserializePartial_masked 6 [], rfl⟩

end Format

end PeerWire
