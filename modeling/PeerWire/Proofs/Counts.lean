import PeerWire.Format
import PeerWire.Proofs.FrameLaws

/-!
# The counts of encoders

Every encoder returns a number, which is meant to be the number of bytes that it has
written. The encoders of the leaves return the length of their chunks. All others add up
what the encoders of their parts return, each in its own way: a sequence starts from its
count, an address goes through its groups, a frame adds its payload behind length and
checksum. That these sums come to the number of bytes is proved codec by codec
(`Codec.Counts`) and then by induction on the format (`Format.counts`).
-/

set_option autoImplicit false

namespace PeerWire

/-! ## Emissions -/

namespace Emission

/-- A count at the end of an emission is the number of its bytes. -/
def Counted (emission : Emission) : Prop :=
  ∀ count, emission.outcome = .ok count → count = emission.bytes.length

theorem counted_nothing : nothing.Counted := by
  rintro count ⟨⟩
  rfl

theorem counted_chunk (bytes : Bytes) : (chunk bytes).Counted := by
  rintro count ⟨⟩
  rw [Emission.bytes, chunk, List.flatten_singleton]

theorem counted_fail (fault : Fault) : (fail fault).Counted := by
  rintro count ⟨⟩

/-- A sum of two right counts is right. -/
theorem Counted.andThen {first second : Emission} (firstCounted : first.Counted)
    (secondCounted : second.Counted) : (first.andThen second).Counted := by
  obtain ⟨chunks, outcome⟩ := first
  obtain ⟨others, behind⟩ := second
  cases outcome with
  | error fault => rintro count ⟨⟩
  | ok front =>
    cases behind with
    | error fault => rintro count ⟨⟩
    | ok back =>
      have left : front = chunks.flatten.length := firstCounted front rfl
      have right : back = others.flatten.length := secondCounted back rfl
      rw [ok_andThen]
      rintro count ⟨⟩
      rw [Emission.bytes, List.flatten_append, List.length_append, ← left, ← right]

theorem counted_all {emissions : List Emission}
    (counted : ∀ emission ∈ emissions, emission.Counted) : (all emissions).Counted := by
  induction emissions with
  | nil => exact counted_nothing
  | cons emission rest ih =>
    exact (counted emission List.mem_cons_self).andThen
      (ih fun other inside => counted other (List.mem_cons_of_mem emission inside))

theorem counted_ofExcept {α : Type} {emit : α → Emission} (counted : ∀ value, (emit value).Counted)
    (checked : Except Fault α) : (ofExcept checked emit).Counted := by
  cases checked with
  | ok value => exact counted value
  | error fault => exact counted_fail fault

theorem counted_ite {first second : Emission} (firstCounted : first.Counted)
    (secondCounted : second.Counted) (passed : Prop) [Decidable passed] :
    (if passed then first else second).Counted := by
  split
  · exact firstCounted
  · exact secondCounted

theorem counted_gathered (emission : Emission) : emission.gathered.Counted :=
  counted_ofExcept counted_chunk emission.toExcept

end Emission

/-! ## Codecs -/

namespace Codec

variable {α β : Type}

/-- The encoder returns the number of bytes that it writes. -/
def Counts (codec : Codec α) : Prop :=
  ∀ value, (codec.encode value).Counted

theorem counts_unsigned (order : ByteOrder) (width : Nat) : (unsigned order width).Counts :=
  fun _ => Emission.counted_ite (Emission.counted_chunk _) (Emission.counted_fail _) _

theorem counts_signed (order : ByteOrder) (width : Nat) : (signed order width).Counts :=
  fun _ => Emission.counted_ite (Emission.counted_chunk _) (Emission.counted_fail _) _

theorem counts_u64 : u64.Counts :=
  fun _ => Emission.counted_ite (Emission.counted_chunk _) (Emission.counted_fail _) _

theorem counts_i64 : i64.Counts :=
  fun _ => Emission.counted_ite (Emission.counted_chunk _) (Emission.counted_fail _) _

theorem counts_bool : bool.Counts :=
  fun _ => Emission.counted_chunk _

theorem counts_unit : unit.Counts :=
  fun _ => Emission.counted_nothing

theorem Counts.refine {inner : Codec β} (counts : inner.Counts) (wire : α → β)
    (ofWire : β → Except ConsensusError α) : (inner.refine wire ofWire).Counts :=
  fun value => counts (wire value)

theorem Counts.map {inner : Codec β} (counts : inner.Counts) (wire : α → β) (ofWire : β → α) :
    (inner.map wire ofWire).Counts :=
  fun value => counts (wire value)

/-- A pair returns the sum of two counts. -/
theorem Counts.pair {first : Codec α} {second : Codec β} (firstCounts : first.Counts)
    (secondCounts : second.Counts) : (first.pair second).Counts :=
  fun value => (firstCounts value.1).andThen (secondCounts value.2)

theorem counts_fixedBytes (length : Nat) : (fixedBytes length).Counts :=
  fun _ => Emission.counted_ofExcept Emission.counted_chunk _

theorem counted_emit (magnitude : Except Fault VarInt) : (VarInt.emit magnitude).Counted :=
  Emission.counted_ofExcept (fun _ => Emission.counted_chunk _) magnitude

/-- A sequence starts from the length of its count and adds what its elements return. -/
theorem Counts.vector {element : Codec α} (counts : element.Counts) : element.vector.Counts := by
  intro values
  rw [vector_eq_counted]
  refine (counted_emit _).andThen (Emission.counted_all fun emission inside => ?_)
  obtain ⟨value, -, rfl⟩ := List.mem_map.mp inside
  exact counts value

theorem counts_varBytes : varBytes.Counts :=
  fun value => (counted_emit _).andThen (Emission.counted_chunk value)

theorem counts_varString : varString.Counts :=
  fun _ => Emission.counted_ite (counts_varBytes _) (Emission.counted_fail _) _

theorem counts_checkedData : checkedData.Counts := by
  intro value
  rw [encode_checkedData]
  exact (counts_unsigned .little 4 _).andThen
    ((Emission.counted_chunk _).andThen (Emission.counted_chunk value))

theorem Counts.under {inner : Codec α} (counts : inner.Counts) {objects : Bool}
    (stray : objects = false → Except Fault α) (name : FieldName) :
    (inner.under stray name).Counts := by
  intro held
  rw [encode_under]
  exact Emission.counted_ofExcept counts _

end Codec

theorem Command.counts_codec : codec.Counts :=
  fun _ => Emission.counted_ofExcept (fun _ => Emission.counted_chunk _) _

theorem ServiceFlags.counts_codec : codec.Counts :=
  Codec.counts_u64.map _ _

/-- The groups of an address are gone through one by one. -/
theorem Address.counts_groupsCodec : groupsCodec.Counts := by
  intro groups
  refine Emission.counted_ite ?_ (Emission.counted_fail _) _
  rw [Emission.addUp_zero]
  refine Emission.counted_all fun emission inside => ?_
  obtain ⟨group, -, rfl⟩ := List.mem_map.mp inside
  exact Codec.counts_unsigned .big 2 group

theorem Address.counts_codec : codec.Counts :=
  (ServiceFlags.counts_codec.pair
    (counts_groupsCodec.pair (Codec.counts_unsigned .big 2))).map _ _

theorem Inventory.counts_codec : codec.Counts :=
  (((Codec.counts_unsigned .little 4).refine _ _).pair (Codec.counts_fixedBytes 32)).map _ _

theorem VersionMessage.counts_codec : codec.Counts :=
  ((Codec.counts_unsigned .little 4).pair (ServiceFlags.counts_codec.pair
    (Codec.counts_i64.pair (Address.counts_codec.pair (Address.counts_codec.pair
      (Codec.counts_u64.pair (Codec.counts_varString.pair
        ((Codec.counts_signed .little 4).pair Codec.counts_bool)))))))).map _ _

theorem Reject.counts_messageCodec : messageCodec.Counts :=
  fun message => Emission.counted_ofExcept (fun _ => Codec.counts_varString message) _

theorem Reject.counts_codec : codec.Counts :=
  (counts_messageCodec.pair (((Codec.counts_unsigned .little 1).refine _ _).pair
    (Codec.counts_varString.pair (Codec.counts_fixedBytes 32)))).map _ _

/-- A frame adds up magic, command, and the payload behind its length and checksum. -/
theorem RawMessage.counts_codec : codec.Counts := by
  intro raw
  rw [encode_codec]
  exact (Codec.counts_unsigned .little 4 _).andThen ((Command.counts_codec _).andThen
    (Emission.counted_ofExcept Codec.counts_checkedData _))

/-! ## Formats -/

mutual

/-- Whatever is written in a format, the encoder returns the number of its bytes. -/
theorem Format.counts : (format : Format) → format.codec.Counts
  | .u8 => Codec.counts_unsigned .little 1
  | .u16 => Codec.counts_unsigned .little 2
  | .u32 => Codec.counts_unsigned .little 4
  | .u64 => Codec.counts_u64
  | .i8 => Codec.counts_signed .little 1
  | .i16 => Codec.counts_signed .little 2
  | .i32 => Codec.counts_signed .little 4
  | .i64 => Codec.counts_i64
  | .u16Network => Codec.counts_unsigned .big 2
  | .truth false => Codec.counts_bool
  | .truth true => Codec.counts_bool.map _ _
  | .varInt => fun _ => Emission.counted_chunk _
  | .fixedBytes length => Codec.counts_fixedBytes length
  | .varBytes => Codec.counts_varBytes
  | .varString => Codec.counts_varString
  | .commandString => Command.counts_codec
  | .checkedData => Codec.counts_checkedData
  | .network => (Codec.counts_unsigned .little 4).refine _ _
  | .serviceFlags => ServiceFlags.counts_codec
  | .inventoryType => (Codec.counts_unsigned .little 4).refine _ _
  | .rejectReason => (Codec.counts_unsigned .little 1).refine _ _
  | .address => Address.counts_codec
  | .inventory => Inventory.counts_codec
  | .inventoryList => Inventory.counts_codec.vector
  | .versionMessage => VersionMessage.counts_codec
  | .reject => Reject.counts_codec
  | .rawMessage => RawMessage.counts_codec
  | .broken .. => fun _ => Emission.counted_fail _
  | .vector element => element.counts.vector
  | .pair first second => first.counts.pair second.counts
  | .record fields => fields.counts (.finite 0)

theorem Fields.counts : (fields : Fields) → (earlier : Size) → (fields.codecBehind earlier).Counts
  | .nil, _ => Codec.counts_unit
  | .cons name format rest, earlier =>
    (format.counts.under format.stray name).pair
      (rest.counts (earlier + format.codec.elementSize))

end

/-- What is returned when a value has been written is the number of bytes of the value. -/
theorem Format.outcome_eq_of_serialize {format : Format} {value : format.Val} {bytes : Bytes}
    (written : format.codec.serialize value = .ok bytes) :
    (format.codec.encode value).outcome = .ok bytes.length
      ∧ (format.codec.encode value).bytes = bytes := by
  have counted := format.counts value
  rw [Codec.serialize, Emission.toExcept] at written
  cases outcome : (format.codec.encode value).outcome with
  | error fault =>
    rw [outcome] at written
    cases written
  | ok count =>
    rw [outcome] at written
    cases written
    exact ⟨congrArg Except.ok (counted count outcome), rfl⟩

end PeerWire
