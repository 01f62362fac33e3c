import PeerWire.Format
import PeerWire.Proofs.Starvation

/-!
# Decoders of fixed width

Some decoders take the same number of bytes whatever these are, and then have a value:
numbers, byte strings of one length, and what is put together from such. They fail for want
of bytes only. `Format.exactWidth?` finds out which formats are read so, and how wide they
are.
-/

set_option autoImplicit false

namespace PeerWire

/-! ## Exact widths -/

namespace Decoder

variable {α β : Type}

/-- Takes a number of bytes in all, whatever they are, and then has a value. Nothing is set
aside. -/
def Exactly : Decoder α → (width : Nat) → Prop
  | .done _, width => width = 0
  | .fail _, _ => False
  | .take count next, width =>
    ∃ behind, width = count + behind
      ∧ ∀ bytes : Bytes, bytes.length = count → (next bytes).Exactly behind
  | .reserve _ _ _, _ => False

theorem Exactly.bind {decoder : Decoder α} {next : α → Decoder β} {first second : Nat}
    (exact : decoder.Exactly first) (behind : ∀ value, (next value).Exactly second) :
    (decoder.bind next).Exactly (first + second) := by
  induction decoder generalizing first with
  | done value =>
    cases exact
    rw [Nat.zero_add]
    exact behind value
  | fail failure => exact exact.elim
  | take count rest ih =>
    obtain ⟨left, rfl, each⟩ := exact
    exact ⟨left + second, Nat.add_assoc count left second,
      fun bytes size => ih bytes (each bytes size)⟩
  | reserve count size rest ih => exact exact.elim

theorem Exactly.map {decoder : Decoder α} {width : Nat} (exact : decoder.Exactly width)
    (f : α → β) : (decoder.bind fun value => .done (f value)).Exactly width := by
  have behind : ∀ value, (Decoder.done (f value)).Exactly 0 := fun _ => rfl
  exact exact.bind behind

theorem Exactly.times {element : Decoder α} {width : Nat} (exact : element.Exactly width)
    (count : Nat) : (Decoder.times count element).Exactly (count * width) := by
  induction count with
  | zero => exact Nat.zero_mul width
  | succ count ih =>
    rw [times_succ, Nat.succ_mul, Nat.add_comm]
    exact exact.bind fun value => ih.map _

/-- With enough bytes ahead, a decoder of fixed width has a value and leaves what is behind
its bytes; with too few it starves. -/
theorem Exactly.parse {decoder : Decoder α} {width : Nat} (exact : decoder.Exactly width)
    (bytes : Bytes) :
    (width ≤ bytes.length → ∃ value, decoder.parse bytes = (.ok value, bytes.drop width))
      ∧ (bytes.length < width → decoder.starves bytes = true) := by
  induction decoder generalizing bytes width with
  | done value =>
    cases exact
    exact ⟨fun _ => ⟨value, rfl⟩, fun short => absurd short (Nat.not_lt_zero _)⟩
  | fail failure => exact exact.elim
  | take count next ih =>
    obtain ⟨behind, rfl, each⟩ := exact
    rcases Nat.lt_or_ge bytes.length count with missing | held
    · exact ⟨fun enough => by omega, fun _ => starves_take_of_lt missing next⟩
    · have size : (bytes.take count).length = count := by
        rw [List.length_take, Nat.min_eq_left held]
      obtain ⟨found, short⟩ := ih _ (each _ size) (bytes.drop count)
      rw [List.length_drop, List.drop_drop] at found
      rw [List.length_drop] at short
      rw [parse_take_of_le held, starves_take_of_le held]
      exact ⟨fun enough => found (by omega), fun less => short (by omega)⟩
  | reserve count size next ih => exact exact.elim

end Decoder

/-! ## Formats -/

mutual

/-- The width of a format whose values are as many bytes each, any of them. -/
def Format.exactWidth? : Format → Option Nat
  | .u8 | .i8 | .truth _ => some 1
  | .u16 | .i16 | .u16Network => some 2
  | .u32 | .i32 => some 4
  | .u64 | .i64 | .serviceFlags => some 8
  | .fixedBytes length => some length
  | .address => some 26
  | .pair first second =>
    first.exactWidth?.bind fun front => second.exactWidth?.map fun back => front + back
  | .record fields => fields.exactWidth?
  | _ => none

/-- The width of a record whose fields have one each. -/
def Fields.exactWidth? : Fields → Option Nat
  | .nil => some 0
  | .cons _ format rest =>
    format.exactWidth?.bind fun front => rest.exactWidth?.map fun back => front + back

end

namespace Codec

variable {α β : Type}

theorem exactly_unsigned (order : ByteOrder) (width : Nat) :
    (unsigned order width).decode.Exactly width :=
  ⟨0, rfl, fun _ _ => rfl⟩

theorem exactly_signed (order : ByteOrder) (width : Nat) :
    (signed order width).decode.Exactly width :=
  ⟨0, rfl, fun _ _ => rfl⟩

theorem exactly_u64 : u64.decode.Exactly 8 :=
  ⟨0, rfl, fun _ _ => rfl⟩

theorem exactly_i64 : i64.decode.Exactly 8 :=
  ⟨0, rfl, fun _ _ => rfl⟩

theorem exactly_bool : bool.decode.Exactly 1 :=
  ⟨0, rfl, fun _ _ => rfl⟩

theorem exactly_fixedBytes (length : Nat) : (fixedBytes length).decode.Exactly length :=
  ⟨0, rfl, fun _ _ => rfl⟩

theorem exactly_map {inner : Codec β} {width : Nat} (exact : inner.decode.Exactly width)
    (wire : α → β) (ofWire : β → α) : (inner.map wire ofWire).decode.Exactly width :=
  exact.map ofWire

theorem exactly_pair {first : Codec α} {second : Codec β} {front back : Nat}
    (exactFirst : first.decode.Exactly front) (exactSecond : second.decode.Exactly back) :
    (first.pair second).decode.Exactly (front + back) :=
  exactFirst.bind fun _ => exactSecond.map _

theorem exactly_under {inner : Codec α} {width : Nat} (exact : inner.decode.Exactly width)
    {objects : Bool} (stray : objects = false → Except Fault α) (name : FieldName) :
    (inner.under stray name).decode.Exactly width := by
  cases name with
  | ordinary text apart => exact exact
  | prototype => exact exact.map _

end Codec

theorem Address.exactly_groupsCodec : groupsCodec.decode.Exactly 16 :=
  (Codec.exactly_unsigned .big 2).times groupCount

theorem Address.exactly_codec : codec.decode.Exactly 26 :=
  Codec.exactly_map (Codec.exactly_pair (Codec.exactly_map Codec.exactly_u64 _ _)
    (Codec.exactly_pair exactly_groupsCodec (Codec.exactly_unsigned .big 2))) _ _

open Codec in
mutual

theorem Format.exactly : (format : Format) → (width : Nat) → format.exactWidth? = some width →
    format.codec.decode.Exactly width
  | .u8, _, rfl => exactly_unsigned .little 1
  | .u16, _, rfl => exactly_unsigned .little 2
  | .u32, _, rfl => exactly_unsigned .little 4
  | .u64, _, rfl => exactly_u64
  | .i8, _, rfl => exactly_signed .little 1
  | .i16, _, rfl => exactly_signed .little 2
  | .i32, _, rfl => exactly_signed .little 4
  | .i64, _, rfl => exactly_i64
  | .u16Network, _, rfl => exactly_unsigned .big 2
  | .truth false, _, rfl => exactly_bool
  | .truth true, _, rfl => exactly_map exactly_bool _ _
  | .fixedBytes length, _, rfl => exactly_fixedBytes length
  | .serviceFlags, _, rfl => exactly_map exactly_u64 _ _
  | .address, _, rfl => Address.exactly_codec
  | .pair first second, width, sum => by
    obtain ⟨front, isFront, rest⟩ := Option.bind_eq_some_iff.mp sum
    obtain ⟨back, isBack, rfl⟩ := Option.map_eq_some_iff.mp rest
    exact exactly_pair (first.exactly front isFront) (second.exactly back isBack)
  | .record fields, width, sum => fields.exactly width sum (.finite 0)
  | .varInt, _, given | .varBytes, _, given | .varString, _, given | .commandString, _, given
  | .checkedData, _, given | .network, _, given | .inventoryType, _, given
  | .rejectReason, _, given | .inventory, _, given | .inventoryList, _, given
  | .versionMessage, _, given | .reject, _, given | .rawMessage, _, given | .broken .., _, given
  | .vector _, _, given => by cases given

theorem Fields.exactly : (fields : Fields) → (width : Nat) → fields.exactWidth? = some width →
    (earlier : Size) → (fields.codecBehind earlier).decode.Exactly width
  | .nil, _, rfl, _ => rfl
  | .cons name format rest, width, sum, earlier => by
    obtain ⟨front, isFront, others⟩ := Option.bind_eq_some_iff.mp sum
    obtain ⟨back, isBack, rfl⟩ := Option.map_eq_some_iff.mp others
    exact exactly_pair (exactly_under (format.exactly front isFront) format.stray name)
      (rest.exactly back isBack (earlier + format.codec.elementSize))

end

end PeerWire
