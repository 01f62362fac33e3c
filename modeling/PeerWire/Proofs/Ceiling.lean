import PeerWire.Proofs.Domains
import PeerWire.Proofs.Metering
import PeerWire.Proofs.Widths

/-!
# The ceiling on what is read

Whoever sends bytes chooses the lengths in them, and may lie. What a reader sets aside on
the word of a length prefix is limited to four million bytes, at every point of every run:
whether the run succeeds in the end or not, and whichever reader it is in, that of the
stream or that of a payload.

Most leaves are plain: they take a few bytes at once and claim nothing, as all do whose width
is fixed (`Decoder.Exactly.plain`). The others are metered here, which means that the check
of each prefix is a node of its own and that a payload is read inside. A metered form is the
decoder that it was made from (`Codec.Meters`), and the forms of a format are put together as
its codec is (`Format.meters`). What a run of a format looks like is then a matter of its
nodes (`Format.metered_bounded`).

No run sets more aside than the ceiling allows, but one kind of prefix is not met with an
error of the bytes: where the elements of a sequence have an infinite size, the check itself
fails (`Format.watched_infinite`).
-/

set_option autoImplicit false

attribute [local instance (high)] instPowNat

namespace PeerWire

/-! ## Plain decoders -/

namespace Decoder

variable {α β : Type}

/-- Takes no more than the ceiling at once, sets nothing aside, and refuses no demand. -/
def Plain : Decoder α → Prop
  | .done _ => True
  | .fail failure => ¬ failure.IsRefusal
  | .take count next =>
    count ≤ maxSequenceSize ∧ ∀ bytes : Bytes, bytes.length = count → (next bytes).Plain
  | .reserve _ _ _ => False

theorem Plain.bind {decoder : Decoder α} {next : α → Decoder β} (plain : decoder.Plain)
    (behind : ∀ value, (next value).Plain) : (decoder.bind next).Plain := by
  induction decoder with
  | done value => exact behind value
  | fail failure => exact plain
  | take count rest ih => exact ⟨plain.1, fun bytes size => ih bytes (plain.2 bytes size)⟩
  | reserve count size rest ih => exact plain.elim

theorem plain_ofExcept {checked : Except ConsensusError α}
    (other : ∀ error, checked = .error error → ¬ (Failure.consensus error).IsRefusal) :
    (ofExcept checked).Plain := by
  cases checked with
  | ok value => trivial
  | error error => exact other error rfl

theorem Plain.times {element : Decoder α} (plain : element.Plain) (count : Nat) :
    (times count element).Plain := by
  induction count with
  | zero => trivial
  | succ count ih =>
    rw [times_succ]
    exact plain.bind fun value => ih.bind fun values => trivial

/-- A decoder of fixed width has no other end than a value. -/
theorem Exactly.plain {decoder : Decoder α} {width : Nat} (exact : decoder.Exactly width)
    (fits : width ≤ maxSequenceSize) : decoder.Plain := by
  induction decoder generalizing width with
  | done value => trivial
  | fail failure => exact exact.elim
  | take count next ih =>
    obtain ⟨behind, rfl, each⟩ := exact
    exact ⟨Nat.le_trans (Nat.le_add_right count behind) fits, fun bytes size =>
      ih bytes (each bytes size) (Nat.le_trans (Nat.le_add_left behind count) fits)⟩
  | reserve count size next ih => exact exact.elim

/-- A plain decoder is prudent, and its value is what the bytes taken are parsed as. -/
theorem Plain.prudent {decoder : Decoder α} (plain : decoder.Plain) (taken : Bytes) :
    (Metered.ofDecoder decoder).Prudent
      (fun value since => ∃ front, since = taken ++ front ∧ decoder.parse front = (.ok value, []))
      taken := by
  induction decoder generalizing taken with
  | done value => exact ⟨[], (List.append_nil taken).symm, rfl⟩
  | fail failure => exact plain
  | take count next ih =>
    refine ⟨plain.1, fun bytes size => (ih bytes (plain.2 bytes size) (taken ++ bytes)).mono ?_⟩
    rintro value since ⟨front, rfl, parsed⟩
    refine ⟨bytes ++ front, List.append_assoc taken bytes front, ?_⟩
    rw [parse_take_append size]
    exact parsed
  | reserve count size next ih => exact plain.elim

end Decoder

/-! ## Counts and contents -/

namespace Metered

variable {α β : Type}

/-- A count, checked at the size that an element is charged. -/
def count (size : Size) : Metered Nat :=
  (ofDecoder VarInt.decode).bind fun count =>
    .claim ⟨count.value.toNat, size⟩ (.done count.value.toNat)

/-- A count of elements and then the elements. -/
def vector (size : Size) (element : Metered α) : Metered (List α) :=
  (count size).bind fun count => .reserve count size (element.times count)

/-- A length and then the bytes. -/
def varBytes : Metered Bytes :=
  (count (.finite 1)).bind fun length => .take length .done

/-- A length and then a text in UTF-8. -/
def varString : Metered Text :=
  varBytes.bind fun bytes =>
    match Text.ofUtf8? bytes with
    | some text => .done text
    | none => .fail (.consensus (.parseFailed .notUtf8))

/-- A length in four bytes, a checksum and then the bytes. -/
def checkedData : Metered Bytes :=
  .take 4 fun length =>
    .claim ⟨length.toNat, .finite 1⟩ <|
      .take 4 fun claimed =>
        .take length.toNat fun data =>
          if checksum data = claimed then .done data
          else .fail (.consensus (.invalidChecksum (checksum data) claimed))

/-- Values that stand for others. -/
def map (inner : Metered β) (ofWire : β → α) : Metered α :=
  inner.bind fun value => .done (ofWire value)

/-- Two values back to back. -/
def pair (first : Metered α) (second : Metered β) : Metered (α × β) :=
  first.bind fun a => second.bind fun b => .done (a, b)

/-- What is held for a field once its value has been assigned. -/
def assigned (objects : Bool) (value : Metered α) :
    (name : FieldName) → Metered (name.Holding objects α)
  | .ordinary .. => value
  | .prototype => value.map (.assigned objects)

end Metered

/-! ## Leaves -/

namespace Codec

variable {α β : Type}

theorem plain_map {inner : Codec β} (plain : inner.decode.Plain) (wire : α → β) (ofWire : β → α) :
    (inner.map wire ofWire).decode.Plain :=
  plain.bind fun _ => trivial

theorem plain_pair {first : Codec α} {second : Codec β} (plainFirst : first.decode.Plain)
    (plainSecond : second.decode.Plain) : (first.pair second).decode.Plain :=
  plainFirst.bind fun _ => plainSecond.bind fun _ => trivial

/-- An unknown code is no refused demand. -/
theorem plain_coded {width : Nat} (fits : width ≤ maxSequenceSize) {all : List α} {code : α → Nat}
    {unknown : Number → ConsensusError}
    (other : ∀ number, ¬ (Failure.consensus (unknown number)).IsRefusal) :
    (coded width all code unknown).decode.Plain := by
  refine ((exactly_unsigned .little width).plain fits).bind fun number => Decoder.plain_ofExcept ?_
  intro error failed
  dsimp only at failed
  split at failed
  · cases failed
  · cases failed
    exact other number

end Codec

theorem VarInt.plain_decodeWide {width : Nat} (fits : width ≤ maxSequenceSize) (shorter : Nat) :
    (decodeWide width shorter).Plain := by
  refine ⟨fits, fun bytes _ => ?_⟩
  dsimp only
  split
  · exact id
  · trivial

theorem VarInt.plain_decode : decode.Plain := by
  refine ⟨by decide, fun bytes _ => ?_⟩
  dsimp only
  split
  · exact plain_decodeWide (by decide) 0xffffffff
  · split
    · exact plain_decodeWide (by decide) 0xffff
    · split
      · exact plain_decodeWide (by decide) 0xfc
      · trivial

theorem Command.plain_codec : codec.decode.Plain := by
  refine ⟨by decide, fun field _ => Decoder.plain_ofExcept ?_⟩
  intro error failed
  rw [nameOfField_eq] at failed
  split at failed
  · cases failed
    exact id
  · split at failed
    · cases failed
      exact id
    · cases failed

theorem Network.plain_codec : codec.decode.Plain := by
  rw [codec_eq_coded]
  exact Codec.plain_coded (by decide) fun _ => id

theorem InventoryType.plain_codec : codec.decode.Plain := by
  rw [codec_eq_coded]
  exact Codec.plain_coded (by decide) fun _ => id

theorem RejectReason.plain_codec : codec.decode.Plain := by
  rw [codec_eq_coded]
  exact Codec.plain_coded (by decide) fun _ => id

theorem Inventory.plain_codec : codec.decode.Plain :=
  Codec.plain_map (Codec.plain_pair InventoryType.plain_codec
    ((Codec.exactly_fixedBytes 32).plain (by decide))) _ _

/-! ## Metered codecs -/

namespace Codec

variable {α β : Type}

/-- A metered form of what a codec reads: it is the decoder of the codec when the metering
is forgotten, and prudent wherever it stands. -/
structure Meters (codec : Codec α) (tree : Metered α) : Prop where
  erases : tree.erase = codec.decode
  careful : tree.Careful

theorem meters_of_plain {codec : Codec α} (plain : codec.decode.Plain) :
    codec.Meters (.ofDecoder codec.decode) where
  erases := Metered.erase_ofDecoder codec.decode
  careful taken := (plain.prudent taken).mono fun _ _ _ => trivial

theorem meters_of_exactly {codec : Codec α} {width : Nat} (exact : codec.decode.Exactly width)
    (fits : width ≤ maxSequenceSize) : codec.Meters (.ofDecoder codec.decode) :=
  meters_of_plain (exact.plain fits)

theorem Meters.map {inner : Codec β} {tree : Metered β} (meters : inner.Meters tree)
    (wire : α → β) (ofWire : β → α) : (inner.map wire ofWire).Meters (tree.map ofWire) where
  erases := by
    rw [Metered.map, Metered.erase_bind, meters.erases]
    rfl
  careful := meters.careful.bind fun _ _ => trivial

theorem Meters.pair {first : Codec α} {second : Codec β} {left : Metered α} {right : Metered β}
    (firstMeters : first.Meters left) (secondMeters : second.Meters right) :
    (first.pair second).Meters (left.pair right) where
  erases := by
    simp only [Metered.pair, Metered.erase_bind, firstMeters.erases, secondMeters.erases,
      Metered.erase, Codec.pair]
  careful := firstMeters.careful.bind fun _ => secondMeters.careful.bind fun _ _ => trivial

/-- What is held under a name is metered as what was assigned is. -/
theorem Meters.under {inner : Codec α} {tree : Metered α} (meters : inner.Meters tree)
    {objects : Bool} (stray : objects = false → Except Fault α) (name : FieldName) :
    (inner.under stray name).Meters (tree.assigned objects name) := by
  cases name with
  | ordinary text apart => exact meters
  | prototype =>
    refine ⟨?_, meters.careful.bind fun _ _ => trivial⟩
    rw [Metered.assigned, Metered.map, Metered.erase_bind, meters.erases]
    rfl

/-- A count that passes the check is the one that was checked. -/
theorem bind_check (claim : Claim) :
    ((Decoder.ofResult claim.check).bind fun _ => .done claim.count)
      = .ofResult claim.check := by
  by_cases met : claim.IsMet
  · rw [Claim.check_of_isMet met]
    rfl
  · rw [Claim.check_of_not_isMet met]
    rfl

theorem erase_count (size : Size) : (Metered.count size).erase = decodeCount size := by
  rw [Metered.count, Metered.erase_bind, Metered.erase_ofDecoder, decodeCount]
  congr
  funext count
  exact bind_check ⟨count.value.toNat, size⟩

/-- Behind a count there is room for its elements. -/
theorem prudent_count (size : Size) (taken : Bytes) :
    (Metered.count size).Prudent (fun count _ => (Claim.mk count size).IsMet) taken := by
  refine (VarInt.plain_decode.prudent taken).bind ?_
  rintro count since ⟨front, rfl, parsed⟩
  -- Only the shortest form of a count is read, so the bytes taken for it state the claim.
  refine ⟨⟨front, .inl ⟨count, rfl, ?_⟩, List.suffix_append taken front⟩, id⟩
  have whole := VarInt.eq_toBytes_of_parse parsed
  rw [List.append_nil] at whole
  exact whole

theorem Meters.vector {element : Codec α} {tree : Metered α} (meters : element.Meters tree) :
    element.vector.Meters (.vector element.elementSize tree) where
  erases := by
    simp only [Metered.vector, Metered.erase_bind, erase_count, Metered.erase,
      Metered.erase_times, meters.erases, Codec.vector]
  careful taken := (prudent_count element.elementSize taken).bind fun count since met =>
    ⟨met, meters.careful.times count since⟩

theorem meters_varBytes : varBytes.Meters .varBytes where
  erases := by
    simp only [Metered.varBytes, Metered.erase_bind, erase_count, Metered.erase, varBytes]
    rfl
  careful taken := (prudent_count (.finite 1) taken).bind fun length since met =>
    ⟨met.count_le, fun _ _ => trivial⟩

theorem meters_varString : varString.Meters .varString where
  erases := by
    rw [Metered.varString, Metered.erase_bind, meters_varBytes.erases, varString]
    congr
    funext bytes
    cases Text.ofUtf8? bytes with
    | none => rfl
    | some text => rfl
  careful := meters_varBytes.careful.bind fun bytes => by
    cases Text.ofUtf8? bytes with
    | none => exact fun _ => id
    | some text => exact fun _ => trivial

/-- Behind an allowed length there is room for the bytes, which the checksum may reject. -/
theorem meters_checkedData : checkedData.Meters .checkedData where
  erases := by
    rw [Metered.checkedData, Metered.erase, checkedData]
    congr
    funext length
    have checked : Claim.check ⟨length.toNat, .finite 1⟩
        = checkAllocation length.toNat (.finite 1) := rfl
    rw [Metered.erase, ← checked]
    by_cases met : (Claim.mk length.toNat (.finite 1)).IsMet
    · rw [Claim.check_of_isMet met, Decoder.ofResult, Decoder.bind, Decoder.bind]
      simp only [Metered.erase]
      congr
      funext claimed
      congr
      funext data
      split
      · rfl
      · rfl
    · rw [Claim.check_of_not_isMet met]
      rfl
  careful taken := by
    refine ⟨by decide, fun length size => ?_⟩
    refine ⟨⟨length, .inr ⟨rfl, size, rfl⟩, List.suffix_append taken length⟩, fun met => ?_⟩
    refine ⟨by decide, fun claimed _ => ⟨met.count_le, fun data _ => ?_⟩⟩
    dsimp only
    split
    · trivial
    · exact id

end Codec

/-! ## Payloads and frames -/

namespace Metered

open Codec in
/-- An introduction: its fields in order. -/
def versionMessage : Metered VersionMessage :=
  ((ofDecoder u32.decode).pair ((ofDecoder ServiceFlags.codec.decode).pair
    ((ofDecoder i64.decode).pair ((ofDecoder Address.codec.decode).pair
      ((ofDecoder Address.codec.decode).pair ((ofDecoder u64.decode).pair
        (varString.pair ((ofDecoder i32.decode).pair (ofDecoder bool.decode))))))))).map
    fun (version, services, timestamp, receiver, sender, nonce, userAgent, startHeight, relay) =>
      ⟨version, services, timestamp, receiver, sender, nonce, userAgent, startHeight, relay⟩

/-- A rejection: its fields in order. -/
def reject : Metered Reject :=
  (varString.pair ((ofDecoder RejectReason.codec.decode).pair
    (varString.pair (ofDecoder (Codec.fixedBytes 32).decode)))).map
    fun (message, code, reason, hash) => ⟨message, code, reason, hash⟩

/-- Objects behind their count. -/
def inventoryList : Metered (List Inventory) :=
  vector Inventory.codec.elementSize (ofDecoder Inventory.codec.decode)

/-- Peers with times, behind their count. -/
def peers : Metered (List (Number × Address)) :=
  vector (Codec.u32.pair Address.codec).elementSize
    (ofDecoder (Codec.u32.pair Address.codec).decode)

/-- The message that a payload of its own is read as. -/
def carried {α : Type} (payload : Bytes) (inner : Metered α) (message : α → NetworkMessage) :
    Metered NetworkMessage :=
  .inside payload inner fun value => .done (message value)

/-- The message of a known command with a payload. -/
def ofPayload (command : Command) (payload : Bytes) : Metered NetworkMessage :=
  match command with
  | .version => carried payload versionMessage .version
  | .addr => carried payload peers .addr
  | .inv => carried payload inventoryList .inv
  | .getdata => carried payload inventoryList .getdata
  | .notfound => carried payload inventoryList .notfound
  | .ping => carried payload (ofDecoder Codec.u64.decode) .ping
  | .pong => carried payload (ofDecoder Codec.u64.decode) .pong
  | .reject => carried payload reject .reject
  | .verack => ofDecoder (.ofResult (NetworkMessage.ofEmpty .verack payload))
  | .getaddr => ofDecoder (.ofResult (NetworkMessage.ofEmpty .getaddr payload))
  | .sendheaders => ofDecoder (.ofResult (NetworkMessage.ofEmpty .sendheaders payload))

/-- The message of a command name with a payload. -/
def decodePayload (name : Text) (payload : Bytes) : Metered NetworkMessage :=
  match Command.ofName? name with
  | some command => ofPayload command payload
  | none => .fail (.consensus (.unrecognizedCommand name))

/-- A raw message of any network. -/
def rawMessage : Metered RawMessage :=
  (ofDecoder Codec.u32.decode).bind fun magic =>
    (ofDecoder Command.codec.decode).bind fun name =>
      checkedData.bind fun data =>
        (decodePayload name data).bind fun payload => .done ⟨magic, payload⟩

end Metered

open Codec in
theorem VersionMessage.meters_codec : codec.Meters .versionMessage := by
  have flags : ServiceFlags.codec.Meters (.ofDecoder ServiceFlags.codec.decode) :=
    meters_of_exactly (exactly_map exactly_u64 _ _) (by decide)
  have peer := meters_of_exactly Address.exactly_codec (by decide)
  have number := meters_of_exactly exactly_u64 (by decide)
  have integer := meters_of_exactly exactly_i64 (by decide)
  have flag := meters_of_exactly exactly_bool (by decide)
  have word := meters_of_exactly (exactly_unsigned .little 4) (by decide)
  have height := meters_of_exactly (exactly_signed .little 4) (by decide)
  exact (word.pair (flags.pair (integer.pair (peer.pair (peer.pair (number.pair
    (meters_varString.pair (height.pair flag)))))))).map _ _

theorem Reject.meters_messageCodec : messageCodec.Meters .varString where
  erases := Codec.meters_varString.erases
  careful := Codec.meters_varString.careful

open Codec in
theorem Reject.meters_codec : codec.Meters .reject :=
  (meters_messageCodec.pair ((meters_of_plain RejectReason.plain_codec).pair
    (meters_varString.pair (meters_of_exactly (exactly_fixedBytes 32) (by decide))))).map _ _

theorem Inventory.meters_listCodec : listCodec.Meters .inventoryList :=
  (Codec.meters_of_plain plain_codec).vector

theorem NetworkMessage.meters_peersCodec : peersCodec.Meters .peers :=
  (Codec.meters_of_exactly
    (Codec.exactly_pair (Codec.exactly_unsigned .little 4) Address.exactly_codec)
    (by decide)).vector

namespace Metered

variable {α : Type}

/-- A metered form of going on with a result. -/
structure Reports (tree : Metered α) (result : Except Failure α) : Prop where
  erases : tree.erase = .ofResult result
  careful : tree.Careful

/-- A payload is read as its codec reads it. -/
theorem reports_carried {codec : Codec α} {inner : Metered α} (meters : codec.Meters inner)
    (payload : Bytes) (message : α → NetworkMessage) :
    (carried payload inner message).Reports ((codec.decode.deserialize payload).map message) where
  erases := by
    rw [carried, erase, meters.erases]
    cases codec.decode.deserialize payload with
    | ok value => rfl
    | error failure => rfl
  careful _ := ⟨meters.careful [], fun _ => trivial⟩

theorem reports_ofEmpty (message : NetworkMessage) (payload : Bytes) :
    (ofDecoder (.ofResult (NetworkMessage.ofEmpty message payload))).Reports
      (NetworkMessage.ofEmpty message payload) where
  erases := erase_ofDecoder _
  careful _ := by
    rw [NetworkMessage.ofEmpty]
    split
    · trivial
    · exact id

theorem reports_ofPayload (command : Command) (payload : Bytes) :
    (ofPayload command payload).Reports (NetworkMessage.ofPayload command payload) := by
  cases command with
  | version => exact reports_carried VersionMessage.meters_codec payload _
  | addr => exact reports_carried NetworkMessage.meters_peersCodec payload _
  | inv => exact reports_carried Inventory.meters_listCodec payload _
  | getdata => exact reports_carried Inventory.meters_listCodec payload _
  | notfound => exact reports_carried Inventory.meters_listCodec payload _
  | ping => exact reports_carried (Codec.meters_of_exactly Codec.exactly_u64 (by decide)) payload _
  | pong => exact reports_carried (Codec.meters_of_exactly Codec.exactly_u64 (by decide)) payload _
  | reject => exact reports_carried Reject.meters_codec payload _
  | verack => exact reports_ofEmpty .verack payload
  | getaddr => exact reports_ofEmpty .getaddr payload
  | sendheaders => exact reports_ofEmpty .sendheaders payload

theorem reports_decodePayload (name : Text) (payload : Bytes) :
    (decodePayload name payload).Reports (NetworkMessage.decodePayload name payload) := by
  rw [decodePayload, NetworkMessage.decodePayload]
  cases Command.ofName? name with
  | some command => exact reports_ofPayload command payload
  | none => exact ⟨rfl, fun _ => id⟩

end Metered

theorem RawMessage.meters_codec : codec.Meters .rawMessage where
  erases := by
    simp only [Metered.rawMessage, Metered.erase_bind, Metered.erase_ofDecoder,
      Codec.meters_checkedData.erases, (Metered.reports_decodePayload _ _).erases]
    rfl
  careful := by
    have magic := Codec.meters_of_exactly (Codec.exactly_unsigned .little 4) (by decide)
    refine magic.careful.bind fun _ => ?_
    refine (Codec.meters_of_plain Command.plain_codec).careful.bind fun name => ?_
    refine Codec.meters_checkedData.careful.bind fun data => ?_
    exact (Metered.reports_decodePayload name data).careful.bind fun _ _ => trivial

/-! ## Formats -/

mutual

/-- What a format reads, metered. -/
def Format.metered : (format : Format) → Metered format.Val
  | .varBytes => .varBytes
  | .varString => .varString
  | .checkedData => .checkedData
  | .inventoryList => .inventoryList
  | .versionMessage => .versionMessage
  | .reject => .reject
  | .rawMessage => .rawMessage
  | .vector element => .vector element.codec.elementSize element.metered
  | .pair first second => first.metered.pair second.metered
  | .record fields => fields.metered
  | leaf => .ofDecoder leaf.codec.decode

/-- What the fields of a record read, metered. -/
def Fields.metered : (fields : Fields) → Metered fields.Val
  | .nil => .done ()
  | .cons name format rest => (format.metered.assigned format.isObject name).pair rest.metered

end

theorem Format.le_of_mem_fixedWidths : ∀ length ∈ fixedWidths, length ≤ maxSequenceSize := by
  decide

open Codec in
mutual

theorem Format.meters : (format : Format) → format.every Format.isSupported = true →
    format.codec.Meters format.metered
  | .u8, _ => meters_of_exactly (exactly_unsigned .little 1) (by decide)
  | .u16, _ => meters_of_exactly (exactly_unsigned .little 2) (by decide)
  | .u32, _ => meters_of_exactly (exactly_unsigned .little 4) (by decide)
  | .u64, _ => meters_of_exactly exactly_u64 (by decide)
  | .i8, _ => meters_of_exactly (exactly_signed .little 1) (by decide)
  | .i16, _ => meters_of_exactly (exactly_signed .little 2) (by decide)
  | .i32, _ => meters_of_exactly (exactly_signed .little 4) (by decide)
  | .i64, _ => meters_of_exactly exactly_i64 (by decide)
  | .u16Network, _ => meters_of_exactly (exactly_unsigned .big 2) (by decide)
  | .truth false, _ => meters_of_exactly exactly_bool (by decide)
  | .truth true, _ => meters_of_exactly (exactly_map exactly_bool _ _) (by decide)
  | .varInt, _ => meters_of_plain VarInt.plain_decode
  | .fixedBytes length, supported =>
    meters_of_exactly (exactly_fixedBytes length)
      (Format.le_of_mem_fixedWidths length (of_decide_eq_true supported))
  | .varBytes, _ => meters_varBytes
  | .varString, _ => meters_varString
  | .commandString, _ => meters_of_plain Command.plain_codec
  | .checkedData, _ => meters_checkedData
  | .network, _ => meters_of_plain Network.plain_codec
  | .serviceFlags, _ => meters_of_exactly (exactly_map exactly_u64 _ _) (by decide)
  | .inventoryType, _ => meters_of_plain InventoryType.plain_codec
  | .rejectReason, _ => meters_of_plain RejectReason.plain_codec
  | .address, _ => meters_of_exactly Address.exactly_codec (by decide)
  | .inventory, _ => meters_of_plain Inventory.plain_codec
  | .inventoryList, _ => Inventory.meters_listCodec
  | .versionMessage, _ => VersionMessage.meters_codec
  | .reject, _ => Reject.meters_codec
  | .rawMessage, _ => RawMessage.meters_codec
  | .broken .., supported => by cases supported
  | .vector element, supported => (element.meters supported).vector
  | .pair first second, supported => by
    obtain ⟨left, right⟩ := Bool.and_eq_true_iff.mp supported
    exact (first.meters left).pair (second.meters right)
  | .record fields, supported => fields.meters supported (.finite 0)

theorem Fields.meters : (fields : Fields) → fields.every Format.isSupported = true →
    (earlier : Size) → (fields.codecBehind earlier).Meters fields.metered
  | .nil, _, _ => ⟨rfl, fun _ => trivial⟩
  | .cons name format rest, supported, earlier => by
    obtain ⟨here, behind⟩ := Bool.and_eq_true_iff.mp supported
    have others := rest.meters behind (earlier + format.codec.elementSize)
    have both := ((format.meters here).under format.stray name).pair others
    exact ⟨both.erases, both.careful⟩

end

namespace Format

/-- Reading a format from a byte string, watched. -/
def watched (format : Format) (bytes : Bytes) : Watched format.Val :=
  format.metered.watch (.ofSource (Cursor.ofBytes bytes))

/-- However a byte string is read in a format of supported leaves, and whether or not that
succeeds, no request for bytes and no room for elements is larger than the ceiling. Every
claim is stated by the bytes that its own reader took last. A claim at a size in bytes that
is beyond the ceiling ends the run: with the error for lengths of more than 64 bits or with
the one for large allocations, and with every reader left where it was. No run ends in one of
these errors without such a claim. A claim at an infinite size ends the run in a fault, at
the same point. Where records keep what is assigned to them, no run ends in a fault without
such a claim. -/
theorem metered_bounded (format : Format) (supported : format.every isSupported = true)
    (bytes : Bytes) :
    format.metered.erase = format.codec.decode
      ∧ ((format.watched bytes).outcome, (format.watched bytes).reader)
          = format.codec.decode.run (.ofSource (Cursor.ofBytes bytes))
      ∧ (∀ event ∈ (format.watched bytes).log,
          (∀ count, event.request = .bytes count → count ≤ maxSequenceSize)
          ∧ (∀ count size, event.request = .room count size →
              ∃ charge, size = .finite charge ∧ count * max 1 charge ≤ maxSequenceSize)
          ∧ ∀ count size, event.request = .claim ⟨count, size⟩ →
              (∃ front, (Claim.mk count size).StatedBy front
                ∧ front <:+ event.reader.source.taken)
              ∧ (∀ charge, size = .finite charge → maxSequenceSize < count * max 1 charge →
                  (format.watched bytes).outcome
                      = .error (.consensus
                          (if 2 ^ (64 : Nat) - 1 < count * max 1 charge then
                            .parseFailed .invalidLength
                          else .oversizedAllocation (count * max 1 charge)
                            (.int maxSequenceSize)))
                    ∧ (format.watched bytes).readers = event.readers
                    ∧ ∃ earlier, (format.watched bytes).log = earlier ++ [event])
              ∧ (size = .infinite →
                  (format.watched bytes).outcome = .error (.fault .infiniteSize)
                    ∧ (format.watched bytes).readers = event.readers
                    ∧ ∃ earlier, (format.watched bytes).log = earlier ++ [event]))
      ∧ (∀ error, (format.watched bytes).outcome = .error (.consensus error) →
          (error = .parseFailed .invalidLength
            ∨ ∃ requested limit, error = .oversizedAllocation requested limit) →
          ∃ event ∈ (format.watched bytes).log, ∃ count charge,
            event.request = .claim ⟨count, .finite charge⟩
              ∧ maxSequenceSize < count * max 1 charge)
      ∧ (format.isOrdinary = true →
          ∀ fault, (format.watched bytes).outcome = .error (.fault fault) →
            fault = .infiniteSize
              ∧ ∃ event ∈ (format.watched bytes).log, ∃ count,
                event.request = .claim ⟨count, .infinite⟩) := by
  have meters := format.meters supported
  have bounded : (format.watched bytes).Bounded := (meters.careful []).bounded rfl
  refine ⟨meters.erases, ?_, ?_, ?_, ?_⟩
  · rw [← meters.erases]
    exact format.metered.watch_eq_run _
  · intro event inside
    have allowed := bounded.allowed event inside
    rw [Event.Allowed] at allowed
    refine ⟨?_, ?_, ?_⟩
    · intro count asked
      rw [asked] at allowed
      exact allowed
    · intro count size asked
      rw [asked] at allowed
      exact allowed
    · intro count size asked
      rw [asked] at allowed
      refine ⟨allowed, ?_, ?_⟩
      · rintro charge rfl large
        exact bounded.refused event inside _ ⟨asked, Claim.not_isMet_of_lt large⟩
      · rintro rfl
        exact bounded.refused event inside _ ⟨asked, Claim.not_isMet_of_infinite count⟩
  · intro error failed kind
    have refusal : (Failure.consensus error).IsRefusal := by
      rcases kind with rfl | ⟨requested, limit, rfl⟩
      · trivial
      · trivial
    obtain ⟨event, inside, ⟨count, size⟩, asked, refused⟩ := bounded.blamed _ failed refusal
    have outcome := (bounded.refused event inside _ ⟨asked, refused⟩).1
    cases size with
    | infinite =>
      rw [failed] at outcome
      cases outcome
    | finite charge =>
      refine ⟨event, inside, count, charge, asked, Nat.lt_of_not_le fun fits => ?_⟩
      exact refused ⟨charge, rfl, fits⟩
  · intro _ fault failed
    obtain ⟨event, inside, ⟨count, size⟩, asked, refused⟩ := bounded.blamed _ failed trivial
    have outcome := (bounded.refused event inside _ ⟨asked, refused⟩).1
    rw [failed] at outcome
    cases size with
    | infinite =>
      cases outcome
      exact ⟨rfl, event, inside, count, asked⟩
    | finite charge => cases outcome

/-- An announcement of more objects than can be counted in bytes. The frame is whole and its
checksum is right; the claim stands at the front of the payload. -/
def boast : Bytes :=
  [0xf9, 0xbe, 0xb4, 0xd9, 0x69, 0x6e, 0x76, 0, 0, 0, 0, 0, 0, 0, 0, 0,
    9, 0, 0, 0, 0x92, 0x15, 0x07, 0x60, 0xff, 0xff, 0xff, 0xff, 0xff, 0xff, 0xff, 0xff, 0xff]

theorem deserializePartial_boast :
    RawMessage.codec.decode.deserializePartial boast
      = .error (.consensus (.parseFailed .invalidLength)) := by
  have named : Command.nameOfField (Frame.commandField boast) = .ok (Text.ofString "inv") := rfl
  have intact : checksum (Frame.payload boast) = Frame.claimedChecksum boast := by
    decide +kernel
  have alone : Inventory.listCodec.decode.deserialize (Frame.payload boast)
      = .error (.consensus (.parseFailed .invalidLength)) := by
    have counted : ((Codec.decodeCount Inventory.codec.elementSize).parse
        (Frame.payload boast)).1 = .error (.consensus (.parseFailed .invalidLength)) := by
      rw [Inventory.elementSize_codec]
      rfl
    refine Decoder.deserialize_of_error ?_
    rw [Inventory.listCodec, Codec.vector, Decoder.parse_bind_of_error counted]
  have known : Command.ofName? (Text.ofString "inv") = some .inv := by decide
  rw [Frame.deserializePartial_of_whole named (by decide) (by decide) intact, known]
  dsimp only
  rw [Command.layout, Layout.read, alone]
  rfl

/-- A watched run fails as the format is read. -/
theorem outcome_watched_of_error {format : Format} (supported : format.every isSupported = true)
    {bytes : Bytes} {failure : Failure}
    (failed : format.codec.decode.deserializePartial bytes = .error failure) :
    (format.watched bytes).outcome = .error failure := by
  have run := format.metered.watch_eq_run (.ofSource (Cursor.ofBytes bytes))
  rw [(format.meters supported).erases] at run
  rw [Decoder.deserializePartial, ← run] at failed
  cases ended : (format.watched bytes).outcome with
  | ok value =>
    rw [watched] at ended
    rw [ended] at failed
    cases failed
  | error found =>
    rw [watched] at ended
    rw [ended] at failed
    cases failed
    rfl

/-- A count of texts that would take a hundred gigabytes, and one of objects inside a frame
whose charge does not fit 64 bits: both runs end at the claim. -/
theorem metered_bounded_boast :
    (∃ event ∈ ((vector varString).watched [0xfe, 0xff, 0xff, 0xff, 0xff, 7]).log, ∃ claim,
        event.request = .claim claim
        ∧ ((vector varString).watched [0xfe, 0xff, 0xff, 0xff, 0xff, 7]).outcome
          = .error (.consensus (.oversizedAllocation 103079215080 (.int maxSequenceSize)))
        ∧ ((vector varString).watched [0xfe, 0xff, 0xff, 0xff, 0xff, 7]).readers = event.readers)
      ∧ ∃ event ∈ (rawMessage.watched boast).log, ∃ claim, event.request = .claim claim
        ∧ (rawMessage.watched boast).outcome
          = .error (.consensus (.parseFailed .invalidLength))
        ∧ (rawMessage.watched boast).readers = event.readers := by
  have found : ∀ (format : Format) (bytes : Bytes) (error : ConsensusError),
      format.every isSupported = true →
      format.codec.decode.deserializePartial bytes = .error (.consensus error) →
      (error = .parseFailed .invalidLength
        ∨ ∃ requested limit, error = .oversizedAllocation requested limit) →
      ∃ event ∈ (format.watched bytes).log, ∃ claim, event.request = .claim claim
        ∧ (format.watched bytes).outcome = .error (.consensus error)
        ∧ (format.watched bytes).readers = event.readers := by
    intro format bytes error supported failed refusal
    obtain ⟨-, -, events, blamed, -⟩ := metered_bounded format supported bytes
    have outcome := outcome_watched_of_error supported failed
    obtain ⟨event, inside, count, charge, asked, large⟩ := blamed error outcome refusal
    obtain ⟨-, readers, -⟩ := ((events event inside).2.2 _ _ asked).2.1 charge rfl large
    exact ⟨event, inside, _, asked, outcome, readers⟩
  constructor
  · refine found (vector varString) _ _ rfl ?_ (.inr ⟨_, _, rfl⟩)
    exact Decoder.deserializePartial_of_error rfl
  · exact found rawMessage _ _ rfl deserializePartial_boast (.inl rfl)

/-- A count of one element of infinite size is beyond every ceiling, but the run ends in a
fault and not in the error for that. -/
theorem watched_infinite :
    (vector (tower 1021)).every isSupported = true
      ∧ ((vector (tower 1021)).watched [1]).outcome = .error (.fault .infiniteSize) := by
  have supported : (vector (tower 1021)).every isSupported = true := every_tower rfl 1021
  have failed := deserializePartial_of_infinite elementSize_tower ⟨1⟩ []
  exact ⟨supported, outcome_watched_of_error supported failed⟩

end Format

end PeerWire
