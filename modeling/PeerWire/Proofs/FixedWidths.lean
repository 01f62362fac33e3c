import PeerWire.Proofs.Chunking
import PeerWire.Proofs.Delivery
import PeerWire.Proofs.Leaves

/-!
# Codecs of fixed width

A codec has a fixed width if everything that it writes is as wide, everything that it reads takes
as much, and everything that it writes can be read (`Codec.FixedWidth`). Pairs of such codecs have
the widths together, and what stands for the values of one has its width. So a format whose leaves
have fixed widths has a fixed width, the sum of theirs (`Format.fixedWidth`).

The element size of a codec claims to be that width. A size beyond `2 ^ 53` is rounded and may be
infinite, but byte strings are never as long as that. So whenever a value is written or read the
size is its width, and a sequence is charged the bytes that its elements take
(`Format.width_of_fixed_leaves`). But no value has to be written for a sequence: of elements of
infinite size not even an empty one is read (`Format.deserialize_no_towers`).
-/

set_option autoImplicit false

attribute [local instance (high)] instPowNat

namespace PeerWire

namespace Codec

variable {α β : Type}

/-! ## Fixed widths -/

/-- Every value takes the same number of bytes when it is written and when it is read, and
wherever one was written one can be read. -/
structure FixedWidth (codec : Codec α) (width : Nat) : Prop where
  spans : codec.Spans width
  takes : ∀ {bytes rest : Bytes} {value : α}, codec.decode.parse bytes = (.ok value, rest) →
    bytes.length = width + rest.length
  readable : ∀ {value : α} {bytes : Bytes}, codec.serialize value = .ok bytes →
    ∀ suffix : Bytes, ∃ found, codec.decode.parse (bytes ++ suffix) = (.ok found, suffix)

theorem Restores.readable {codec : Codec α} (restores : codec.Restores fun _ => []) {value : α}
    {bytes : Bytes} (written : codec.serialize value = .ok bytes) (suffix : Bytes) :
    ∃ found, codec.decode.parse (bytes ++ suffix) = (.ok found, suffix) :=
  ⟨value, restores.restored written rfl suffix⟩

/-- Where only written bytes are read, they are as many. -/
theorem FixedWidth.of_canonical {codec : Codec α} {width : Nat} (spans : codec.Spans width)
    (canonical : codec.Canonical) (restores : codec.Restores fun _ => []) :
    codec.FixedWidth width where
  spans := spans
  takes {bytes rest value} parsed := by
    obtain ⟨front, written, rfl⟩ := canonical bytes rest value parsed
    rw [List.length_append, spans value front written]
  readable written suffix := restores.readable written suffix

theorem FixedWidth.resize {codec : Codec α} {width : Nat} (fixed : codec.FixedWidth width)
    (size : Size) : { codec with elementSize := size }.FixedWidth width where
  spans value bytes written := fixed.spans value bytes written
  takes parsed := fixed.takes parsed
  readable written suffix := fixed.readable written suffix

theorem FixedWidth.map {inner : Codec β} {width : Nat} (fixed : inner.FixedWidth width)
    (wire : α → β) (ofWire : β → α) : (inner.map wire ofWire).FixedWidth width where
  spans := fixed.spans.map wire ofWire
  takes {bytes rest value} parsed := by
    obtain ⟨onWire, left, first, second⟩ := Decoder.parse_bind_eq_ok parsed
    cases second
    exact fixed.takes first
  readable {value bytes} written suffix := by
    have onWire : inner.serialize (wire value) = .ok bytes := written
    obtain ⟨found, parsed⟩ := fixed.readable onWire suffix
    exact ⟨ofWire found, Decoder.parse_bind_of_ok parsed _⟩

theorem FixedWidth.pair {first : Codec α} {second : Codec β} {firstWidth secondWidth : Nat}
    (ofFirst : first.FixedWidth firstWidth) (ofSecond : second.FixedWidth secondWidth) :
    (first.pair second).FixedWidth (firstWidth + secondWidth) where
  spans := ofFirst.spans.pair ofSecond.spans
  takes {bytes rest value} parsed := by
    obtain ⟨a, middle, parsedFirst, behind⟩ := Decoder.parse_bind_eq_ok parsed
    obtain ⟨b, left, parsedSecond, last⟩ := Decoder.parse_bind_eq_ok behind
    cases last
    rw [ofFirst.takes parsedFirst, ofSecond.takes parsedSecond, Nat.add_assoc]
  readable {value bytes} written suffix := by
    obtain ⟨front, back, wroteFront, wroteBack, rfl⟩ := serialize_pair_eq_ok.mp written
    obtain ⟨a, parsedFirst⟩ := ofFirst.readable wroteFront (back ++ suffix)
    obtain ⟨b, parsedSecond⟩ := ofSecond.readable wroteBack suffix
    refine ⟨(a, b), ?_⟩
    rw [List.append_assoc, Codec.pair, Decoder.parse_bind_of_ok parsedFirst,
      Decoder.parse_bind_of_ok parsedSecond, Decoder.parse_done]

/-- What is held under a name is as wide as what was assigned: no other bytes are written. -/
theorem FixedWidth.under {inner : Codec α} {width : Nat} (fixed : inner.FixedWidth width)
    {objects : Bool} (stray : objects = false → Except Fault α) (name : FieldName) :
    (inner.under stray name).FixedWidth width := by
  have wrote : ∀ {held bytes}, (inner.under stray name).serialize held = .ok bytes →
      ∃ value, inner.serialize value = .ok bytes := by
    intro held bytes written
    rw [serialize, encode_under] at written
    cases found : name.found stray held with
    | ok value =>
      rw [found] at written
      exact ⟨value, written⟩
    | error fault =>
      rw [found] at written
      cases written
  have spans : (inner.under stray name).Spans width := by
    intro held bytes written
    obtain ⟨value, same⟩ := wrote written
    exact fixed.spans value bytes same
  refine ⟨spans, fun {bytes rest held} parsed => ?_, fun written suffix => ?_⟩
  · cases name with
    | ordinary text apart => exact fixed.takes parsed
    | prototype =>
      obtain ⟨value, left, first, second⟩ := Decoder.parse_bind_eq_ok parsed
      cases second
      exact fixed.takes first
  · obtain ⟨value, same⟩ := wrote written
    obtain ⟨found, parsed⟩ := fixed.readable same suffix
    cases name with
    | ordinary text apart => exact ⟨found, parsed⟩
    | prototype => exact ⟨.assigned objects found, Decoder.parse_bind_of_ok parsed _⟩

theorem fixedWidth_unit : unit.FixedWidth 0 :=
  have nothing : unit.Spans 0 := by
    rintro value bytes ⟨⟩
    rfl
  .of_canonical nothing canonical_unit restores_unit

theorem fixedWidth_unsigned (order : ByteOrder) (width : Nat) :
    (unsigned order width).FixedWidth width :=
  .of_canonical (spans_unsigned order width) (canonical_unsigned order width)
    (restores_unsigned order width)

theorem fixedWidth_signed (order : ByteOrder) (width : Nat) :
    (signed order width).FixedWidth width := by
  refine .of_canonical ?_ (canonical_signed order width) (restores_signed order width)
  intro value bytes written
  obtain ⟨number, -, -, rfl⟩ := serialize_signed_eq_ok.mp written
  exact order.length_write _ _

theorem fixedWidth_u64 : u64.FixedWidth 8 :=
  .of_canonical spans_u64 canonical_u64 restores_u64

theorem fixedWidth_i64 : i64.FixedWidth 8 := by
  refine .of_canonical ?_ canonical_i64 restores_i64
  intro value bytes written
  obtain ⟨-, rfl⟩ := serialize_i64_eq_ok.mp written
  exact ByteOrder.length_write _ _ _

/-- A truth value is read from bytes that are not written, of which there are as many. -/
theorem fixedWidth_bool : bool.FixedWidth 1 where
  spans := by
    rintro value bytes ⟨⟩
    rfl
  takes {bytes rest value} parsed := by
    obtain ⟨front, suffix, rfl, size, read⟩ := Decoder.parse_take_eq_ok parsed
    cases read
    rw [List.length_append, size]
  readable written suffix := restores_bool.readable written suffix

theorem fixedWidth_fixedBytes (length : Nat) : (fixedBytes length).FixedWidth length :=
  .of_canonical (spans_fixedBytes length) (canonical_fixedBytes length) (restores_fixedBytes length)

theorem spans_coded {width : Nat} {all : List α} {code : α → Nat}
    {unknown : Number → ConsensusError} : (coded width all code unknown).Spans width :=
  (spans_unsigned .little width).refine _ _

/-! ## Sequences of fixed width -/

/-- As many elements as were written can be read. -/
theorem FixedWidth.readable_times {element : Codec α} {width : Nat}
    (fixed : element.FixedWidth width) {values : List α} {bytes : Bytes}
    (written : element.serializeAll values = .ok bytes) (suffix : Bytes) :
    ∃ found, (Decoder.times values.length element.decode).parse (bytes ++ suffix)
      = (.ok found, suffix) := by
  induction values generalizing bytes with
  | nil =>
    cases written
    exact ⟨[], rfl⟩
  | cons value rest ih =>
    obtain ⟨front, back, wroteFront, wroteBack, rfl⟩ := serializeAll_cons_eq_ok.mp written
    obtain ⟨first, parsedFirst⟩ := fixed.readable wroteFront (back ++ suffix)
    obtain ⟨others, parsedRest⟩ := ih wroteBack
    refine ⟨first :: others, ?_⟩
    rw [List.length_cons, Decoder.times_succ, List.append_assoc,
      Decoder.parse_bind_of_ok parsedFirst, Decoder.parse_bind_of_ok parsedRest,
      Decoder.parse_done]

/-- Elements of fixed width are written behind their count, and what is written is read as a
whole exactly if the elements, at the size they are charged, are within the ceiling. -/
theorem FixedWidth.exists_serialize_vector {element : Codec α} {width charge : Nat}
    (fixed : element.FixedWidth width) (charged : element.elementSize = .finite charge)
    {values : List α} (safe : values.length ≤ Number.maxSafe)
    (each : ∀ value ∈ values, ∃ bytes, element.serialize value = .ok bytes) :
    ∃ inside, element.vector.serialize values = .ok ((countOf values.length).toBytes ++ inside)
      ∧ inside.length = values.length * width
      ∧ ((∃ found, element.vector.decode.deserialize ((countOf values.length).toBytes ++ inside)
            = .ok found)
          ↔ values.length * max 1 charge ≤ maxSequenceSize) := by
  obtain ⟨inside, contents⟩ := exists_serializeAll each
  have written : element.vector.serialize values
      = .ok ((countOf values.length).toBytes ++ inside) := by
    rw [vector_eq_counted]
    exact serialize_counted_eq_ok.mpr ⟨safe, inside, contents, rfl⟩
  refine ⟨inside, written, fixed.spans.length_serializeAll contents, ?_⟩
  have allowed : Demand.refusal? [⟨values.length, charge⟩] = none
      ↔ values.length * max 1 charge ≤ maxSequenceSize := by
    rw [Demand.refusal?_eq_none_iff, List.forall_mem_singleton, Demand.room]
  have count := parse_decodeCount_append safe charge inside
  rw [← allowed]
  cases refusal : Demand.refusal? [⟨values.length, charge⟩] with
  | none =>
    obtain ⟨found, parsed⟩ := fixed.readable_times contents []
    rw [List.append_nil] at parsed
    rw [refusal] at count
    refine iff_of_true ⟨found, Decoder.deserialize_eq_ok_iff.mpr ?_⟩ rfl
    rw [vector, charged, Decoder.parse_bind_of_ok count]
    exact parsed
  | some error =>
    rw [refusal] at count
    have failed : (element.vector.decode.parse ((countOf values.length).toBytes ++ inside)).1
        = .error (.consensus error) := by
      rw [vector, charged, Decoder.parse_bind_of_error (congrArg Prod.fst count)]
    rw [Decoder.deserialize_of_error failed]
    refine iff_of_false ?_ (fun impossible => by cases impossible)
    rintro ⟨_, impossible⟩
    cases impossible

/-- No sequence of elements of infinite size is read, not even the empty one. -/
theorem deserialize_vector_of_infinite {element : Codec α}
    (infinite : element.elementSize = .infinite) (bytes : Bytes) (found : List α) :
    element.vector.decode.deserialize bytes ≠ .ok found := by
  intro read
  obtain ⟨count, left, counted, -⟩ :=
    Decoder.parse_bind_eq_ok (Decoder.deserialize_eq_ok_iff.mp read)
  rw [infinite] at counted
  obtain ⟨varInt, middle, -, checked⟩ := Decoder.parse_bind_eq_ok counted
  cases checked

end Codec

/-! ## Leaves of fixed width -/

theorem Command.fixedWidth_codec : Command.codec.FixedWidth 12 := by
  refine .of_canonical ?_ canonical_codec restores_codec
  intro name bytes written
  obtain ⟨⟨-, -, short⟩, rfl⟩ := serialize_codec_eq_ok.mp written
  exact length_field short

theorem Network.fixedWidth_codec : Network.codec.FixedWidth 4 := by
  refine .of_canonical ?_ canonical_codec restores_codec
  rw [codec_eq_coded]
  exact Codec.spans_coded

theorem InventoryType.fixedWidth_codec : InventoryType.codec.FixedWidth 4 := by
  refine .of_canonical ?_ canonical_codec restores_codec
  rw [codec_eq_coded]
  exact Codec.spans_coded

theorem RejectReason.fixedWidth_codec : RejectReason.codec.FixedWidth 1 := by
  refine .of_canonical ?_ canonical_codec restores_codec
  rw [codec_eq_coded]
  exact Codec.spans_coded

namespace Format

/-- Whether a leaf is as wide for every value. -/
def isFixed : Format → Bool
  | .u8 | .u16 | .u32 | .u64 | .i8 | .i16 | .i32 | .i64 | .u16Network | .truth _ | .fixedBytes _
  | .network | .serviceFlags | .inventoryType | .rejectReason | .commandString | .address
  | .inventory => true
  | _ => false

open Codec in
/-- The element size of a leaf of fixed width is the width. -/
theorem fixedWidth_of_isFixed {leaf : Format} (fixed : leaf.isFixed = true) :
    leaf.codec.FixedWidth leaf.codec.elementSize.toNat := by
  cases leaf with
  | u8 => exact fixedWidth_unsigned .little 1
  | u16 => exact fixedWidth_unsigned .little 2
  | u32 => exact fixedWidth_unsigned .little 4
  | u64 => exact fixedWidth_u64
  | i8 => exact fixedWidth_signed .little 1
  | i16 => exact fixedWidth_signed .little 2
  | i32 => exact fixedWidth_signed .little 4
  | i64 => exact fixedWidth_i64
  | u16Network => exact fixedWidth_unsigned .big 2
  | truth inverted =>
    cases inverted with
    | false => exact fixedWidth_bool
    | true => exact fixedWidth_bool.map _ _
  | fixedBytes length => exact fixedWidth_fixedBytes length
  | network => exact Network.fixedWidth_codec
  | serviceFlags =>
    exact .of_canonical ServiceFlags.spans_codec ServiceFlags.canonical_codec
      ServiceFlags.restores_codec
  | inventoryType => exact InventoryType.fixedWidth_codec
  | rejectReason => exact RejectReason.fixedWidth_codec
  | commandString => exact Command.fixedWidth_codec
  | address =>
    have size : Address.codec.elementSize.toNat = 26 := by decide +kernel
    rw [codec, size]
    exact .of_canonical Address.spans_codec Address.canonical_codec Address.restores_codec
  | inventory =>
    rw [codec, Inventory.elementSize_codec, Size.toNat]
    exact .of_canonical Inventory.spans_codec Inventory.canonical_codec Inventory.restores_codec
  | _ => cases fixed

/-- A format whose leaves have fixed widths has the width of its leaves together. -/
theorem fixedWidth (format : Format) (fixed : ∀ leaf ∈ format.leaves, leaf.isFixed = true) :
    format.codec.FixedWidth (sizeOfLeaves format.leaves) := by
  have shown : LeafInduction
      (fun format => (∀ leaf ∈ format.leaves, leaf.isFixed = true) →
        format.codec.FixedWidth (sizeOfLeaves format.leaves))
      (fun fields => ∀ earlier : Size, (∀ leaf ∈ fields.leaves, leaf.isFixed = true) →
        (fields.codecBehind earlier).FixedWidth (sizeOfLeaves fields.leaves)) := by
    constructor
    case leaf =>
      intro format isLeaf fixed
      rw [leaves_of_isLeaf isLeaf] at fixed ⊢
      exact fixedWidth_of_isFixed (fixed format List.mem_cons_self)
    case pair =>
      intro first second ihFirst ihSecond fixed
      rw [leaves, List.forall_mem_append] at fixed
      rw [leaves, sizeOfLeaves_append]
      exact (ihFirst fixed.1).pair (ihSecond fixed.2)
    case record => exact fun fields ih => ih (.finite 0)
    case nil => exact fun earlier _ => Codec.fixedWidth_unit.resize earlier
    case cons =>
      intro name format rest ihFormat ihRest earlier fixed
      rw [Fields.leaves, List.forall_mem_append] at fixed
      rw [Fields.leaves, sizeOfLeaves_append]
      exact (((ihFormat fixed.1).under format.stray name).pair
        (ihRest (earlier + format.codec.elementSize) fixed.2)).resize _
  exact shown.format format fixed

end Format

namespace Format

/-- A width that is exact as a number is the element size. -/
theorem elementSize_of_sizeOfLeaves {format : Format} {width : Nat}
    (exact : sizeOfLeaves format.leaves = width) (safe : width ≤ Number.maxSafe) :
    format.codec.elementSize = .finite width := by
  have capped := format.capped_elementSize
  rw [Number.maxSafe] at safe
  rw [exact, Nat.min_eq_left (by omega)] at capped
  cases size : format.codec.elementSize with
  | infinite =>
    rw [size, Size.capped] at capped
    omega
  | finite bytes =>
    rw [size, Size.capped] at capped
    exact congrArg Size.finite (by omega)

/-- A format put together from leaves of fixed width counts as an element for its width.
Whatever is written of it to any sink, and returned as the count, is as wide. Whatever is read of
it takes as much, of a byte string and of every source that delivers a stream. All this as far as
counts are exact numbers: no byte string is longer than that. Values of it in a sequence are
written behind their count, at their width each. Where records keep what is assigned to them, what
is written is read exactly if the values are within the ceiling together. Where the size is beyond
all numbers, no sequence is read. -/
theorem width_of_fixed_leaves (format : Format)
    (fixed : ∀ leaf ∈ format.leaves, leaf.isFixed = true) :
    (∀ (σ : Type) [ByteSink σ] (value : format.Val) (sink after : σ) (count : Nat),
        (format.codec.encode value).deliver sink = (.ok count, after) →
          count ≤ Number.maxSafe →
            format.codec.elementSize = .finite count
              ∧ ∃ bytes, format.codec.serialize value = .ok bytes ∧ bytes.length = count)
      ∧ (∀ (bytes : Bytes) (value : format.Val) (consumed : Nat),
          format.codec.decode.deserializePartial bytes = .ok ⟨value, consumed⟩ →
            consumed ≤ Number.maxSafe → format.codec.elementSize = .finite consumed)
      ∧ (∀ (σ : Type) [ByteSource σ] (ending : StreamEnd) (stream : Bytes) (source : σ)
          (earlier : Nat) (value : format.Val) (after : Reader σ), Delivers ending stream source →
            format.codec.decode.run ⟨source, earlier, true⟩ = (.ok value, after) →
              after.consumed ≤ Number.maxSafe →
                ∃ width, format.codec.elementSize = .finite width
                  ∧ after.consumed = earlier + width)
      ∧ (∀ width, format.codec.elementSize = .finite width → 0 < width →
          ∀ values : List format.Val, values.length < 2 ^ (32 : Nat) →
          (∀ value ∈ values, ∃ bytes, format.codec.serialize value = .ok bytes) →
            ∃ inside, format.codec.vector.serialize values
                = .ok ((Codec.countOf values.length).toBytes ++ inside)
              ∧ (inside.length ≤ Number.maxSafe →
                inside.length = values.length * width
                  ∧ (format.isOrdinary = true →
                    ((∃ found, format.codec.vector.decode.deserialize
                        ((Codec.countOf values.length).toBytes ++ inside) = .ok found)
                      ↔ values.length * width ≤ maxSequenceSize))))
      ∧ (format.codec.elementSize = .infinite → ∀ (bytes : Bytes) (found : List format.Val),
          format.codec.vector.decode.deserialize bytes ≠ .ok found) := by
  have isFixed := format.fixedWidth fixed
  refine ⟨?_, ?_, ?_, ?_, Codec.deserialize_vector_of_infinite⟩
  · intro σ _ value sink after count delivered safe
    obtain ⟨bytes, written, counted⟩ := Format.serialize_of_deliver delivered
    have spanned := (isFixed.spans value bytes written).symm.trans counted
    exact ⟨elementSize_of_sizeOfLeaves spanned safe, bytes, written, counted⟩
  · intro bytes value consumed read safe
    obtain ⟨within, parsed⟩ := Decoder.parse_of_deserializePartial read
    have taken := isFixed.takes parsed
    rw [List.length_drop] at taken
    exact elementSize_of_sizeOfLeaves (by omega) safe
  · intro σ _ ending stream source earlier value after delivers run safe
    obtain ⟨ends, counted⟩ := format.codec.decode.run_of_delivers delivers earlier
    rw [run] at ends counted
    have parsed : (format.codec.decode.parse stream).1 = .ok value := by
      cases ending with
      | exhausted => exact ends.symm
      | raises cause =>
        rw [Decoder.outcome] at ends
        split at ends
        · cases ends
        · exact ends.symm
    have taken := isFixed.takes (Prod.ext parsed (Eq.refl (format.codec.decode.parse stream).2))
    rw [taken, Nat.add_sub_cancel] at counted
    change after.consumed = earlier + sizeOfLeaves format.leaves at counted
    have narrow : sizeOfLeaves format.leaves ≤ Number.maxSafe := by omega
    exact ⟨_, elementSize_of_sizeOfLeaves rfl narrow, counted⟩
  · intro width size positive values few each
    have countable : values.length ≤ Number.maxSafe := by
      rw [Number.maxSafe]
      omega
    obtain ⟨inside, written, length, accepted⟩ :=
      isFixed.exists_serialize_vector size countable each
    rw [Nat.max_eq_right positive] at accepted
    refine ⟨inside, written, fun safe => ⟨?_, fun _ => accepted⟩⟩
    -- The exact width is that of one of the elements, if there is any.
    rcases Nat.eq_zero_or_pos values.length with none | some
    · rw [length, none, Nat.zero_mul, Nat.zero_mul]
    · have narrow : sizeOfLeaves format.leaves ≤ inside.length := by
        rw [length]
        exact Nat.le_mul_of_pos_left _ some
      have same := elementSize_of_sizeOfLeaves rfl (Nat.le_trans narrow safe)
      rw [size] at same
      cases same
      exact length

/-- An inverted flag, and a network together with a port. -/
def berth : Format :=
  .record (.cons (.ordinary "open" (by decide)) (.truth true)
    (.cons (.ordinary "place" (by decide)) (.pair .network .u16Network) .nil))

def berthValue : berth.Val :=
  (true, (.bitcoin, 8333), ())

def berthBytes : Bytes :=
  [0, 0xf9, 0xbe, 0xb4, 0xd9, 0x20, 0x8d]

theorem elementSize_berth : berth.codec.elementSize = .finite 7 := by
  decide +kernel

/-- Seven bytes are written, and taken from a byte string and from a cursor; and two times seven
behind a count. -/
theorem width_of_fixed_leaves_berth :
    (∃ count after, (berth.codec.encode berthValue).deliver GrowableSink.empty = (.ok count, after)
        ∧ berth.codec.elementSize = .finite count)
      ∧ berth.codec.decode.deserializePartial (berthBytes ++ [7]) = .ok ⟨berthValue, 7⟩
      ∧ (berth.codec.decode.run ⟨Cursor.ofBytes berthBytes, 3, true⟩).2.consumed = 10
      ∧ ∃ inside found, berth.codec.vector.serialize [berthValue, berthValue]
            = .ok ((Codec.countOf 2).toBytes ++ inside)
          ∧ inside.length = 14
          ∧ berth.codec.vector.decode.deserialize ((Codec.countOf 2).toBytes ++ inside)
            = .ok found := by
  obtain ⟨writes, reads, takes, lists, -⟩ := width_of_fixed_leaves berth (by decide)
  have wrote : berth.codec.serialize berthValue = .ok berthBytes := rfl
  have parsed : berth.codec.decode.parse (berthBytes ++ [7]) = (.ok berthValue, [7]) := rfl
  refine ⟨?_, ?_, ?_, ?_⟩
  · obtain ⟨after, delivered, -⟩ := Format.serialize_eq_ok_iff_deliver.mp wrote
    obtain ⟨size, -⟩ := writes _ _ _ _ _ delivered (by decide)
    exact ⟨_, after, delivered, size⟩
  · have read := Decoder.deserializePartial_append parsed
    have consumed := reads _ _ _ read (by decide)
    rw [elementSize_berth] at consumed
    cases consumed
    exact read
  · have run : (berth.codec.decode.run ⟨Cursor.ofBytes berthBytes, 3, true⟩).1
        = .ok berthValue := by
      rw [Decoder.run_cursor _ _ rfl]
      rfl
    obtain ⟨width, size, consumed⟩ :=
      takes _ _ _ _ _ berthValue _ (Cursor.delivers _) (Prod.ext run rfl) (by decide +kernel)
    rw [elementSize_berth] at size
    cases size
    exact consumed
  · have each : ∀ value ∈ [berthValue, berthValue],
        ∃ bytes, berth.codec.serialize value = .ok bytes := by
      intro value inside
      have same : value = berthValue := by simpa using inside
      exact ⟨berthBytes, same ▸ wrote⟩
    have both : berth.codec.vector.serialize [berthValue, berthValue]
        = .ok ((Codec.countOf 2).toBytes ++ (berthBytes ++ berthBytes)) := rfl
    obtain ⟨inside, written, when⟩ := lists 7 elementSize_berth (by decide) _ (by decide) each
    have same : (Codec.countOf 2).toBytes ++ inside
        = (Codec.countOf 2).toBytes ++ (berthBytes ++ berthBytes) :=
      Except.ok.inj (written.symm.trans both)
    have contents := List.append_cancel_left same
    obtain ⟨length, accepted⟩ := when (by rw [contents]; decide)
    obtain ⟨found, restored⟩ := (accepted rfl).mpr (by decide)
    exact ⟨inside, found, written, length, restored⟩

theorem isFixed_of_mem_leaves_tower {height : Nat} :
    ∀ leaf ∈ (tower height).leaves, leaf.isFixed = true := by
  induction height with
  | zero =>
    intro leaf inside
    rw [List.mem_singleton.mp inside]
    rfl
  | succ height ih =>
    intro leaf inside
    rcases List.mem_append.mp inside with front | back
    · exact ih leaf front
    · exact ih leaf back

/-- Elements of fixed width whose size is beyond all numbers: none of them are written as a count
of zero, which is not read, although nothing is no more than the ceiling. -/
theorem deserialize_no_towers :
    (∀ leaf ∈ (tower 1021).leaves, leaf.isFixed = true)
      ∧ (tower 1021).codec.elementSize = .infinite
      ∧ (vector (tower 1021)).codec.serialize [] = .ok [0]
      ∧ (vector (tower 1021)).codec.decode.deserialize [0] = .error (.fault .infiniteSize) :=
  ⟨isFixed_of_mem_leaves_tower, elementSize_tower, rfl,
    Decoder.deserialize_of_error (Codec.parse_vector_of_infinite elementSize_tower ⟨0⟩ [])⟩

end Format

end PeerWire
