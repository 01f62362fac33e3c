import PeerWire.Proofs.FormatLaws
import PeerWire.Proofs.FrameGrammar
import PeerWire.Proofs.Starvation

/-!
# What reading can come to

Reading hostile bytes ends in one of two ways: with a value, or with a consensus error.
The types leave more room on both sides. A number can be any binary64 value where a
format has one byte for it, a byte string can have any length, and a decoder can end in
a fault, which would be a defect of the decoder and not of the bytes.

Every format has a domain, the values that are meant: numbers within their width, byte
strings of their length, texts that have a UTF-8 form, addresses of eight groups. A
decoder is sound for a domain if each of its ends is a value of the domain or a
consensus error (`Decoder.Sound`). Soundness is preserved by everything that formats are
built with, so that it is proved leaf by leaf and holds of every format whose leaves
can be used (`Format.yields`).
-/

set_option autoImplicit false

attribute [local instance (high)] instPowNat

namespace PeerWire

/-! ## Domains of records -/

/-- A command name: it has a UTF-8 form, and that fits the field. -/
structure Command.IsName (name : Text) : Prop where
  wellFormed : name.isWellFormed = true
  fits : checkName name = .ok name.toUtf8

/-- Eight groups and a port, each within sixteen bits. -/
structure Address.WellFormed (address : Address) : Prop where
  count : address.groups.length = groupCount
  groups : ∀ group ∈ address.groups, group.isUnsigned 16 = true
  port : address.port.isUnsigned 16 = true

/-- A hash of thirty-two bytes. -/
structure Inventory.WellFormed (item : Inventory) : Prop where
  hash : item.hash.length = 32

structure VersionMessage.WellFormed (message : VersionMessage) : Prop where
  version : message.version.isUnsigned 32 = true
  timestamp : isSigned64 message.timestamp = true
  receiver : message.receiver.WellFormed
  sender : message.sender.WellFormed
  nonce : isUnsigned64 message.nonce = true
  userAgent : message.userAgent.isWellFormed = true
  startHeight : message.startHeight.isSigned 32 = true

/-- The command is any text: a rejection may be read that cannot be written. -/
structure Reject.WellFormed (rejection : Reject) : Prop where
  message : rejection.message.isWellFormed = true
  reason : rejection.reason.isWellFormed = true
  hash : rejection.hash.length = 32

def NetworkMessage.WellFormed : NetworkMessage → Prop
  | .version introduction => introduction.WellFormed
  | .addr peers => ∀ peer ∈ peers, peer.1.isUnsigned 32 = true ∧ peer.2.WellFormed
  | .inv items | .getdata items | .notfound items => ∀ item ∈ items, item.WellFormed
  | .ping nonce | .pong nonce => isUnsigned64 nonce = true
  | .reject rejection => rejection.WellFormed
  | .verack | .getaddr | .sendheaders => True

structure RawMessage.WellFormed (raw : RawMessage) : Prop where
  magic : raw.magic.isUnsigned 32 = true
  payload : raw.payload.WellFormed

/-! ## Domains of formats -/

/-- What is held is a value of its own, and of the domain. -/
def Held.IsOwn {α : Type} {objects : Bool} (domain : α → Prop) : Held objects α → Prop
  | .own value => domain value
  | .inherited .. | .lost .. => False

mutual

/-- The values that a format is meant for. -/
def Format.WellFormed : (format : Format) → format.Val → Prop
  | .u8, value => value.isUnsigned 8 = true
  | .u16, value => value.isUnsigned 16 = true
  | .u32, value => value.isUnsigned 32 = true
  | .u64, value => isUnsigned64 value = true
  | .i8, value => value.isSigned 8 = true
  | .i16, value => value.isSigned 16 = true
  | .i32, value => value.isSigned 32 = true
  | .i64, value => isSigned64 value = true
  | .u16Network, value => value.isUnsigned 16 = true
  | .fixedBytes length, value => value.length = length
  | .varBytes, value => value.length ≤ maxSequenceSize
  | .checkedData, value => value.length ≤ maxSequenceSize
  | .varString, value => value.isWellFormed = true
  | .commandString, value => Command.IsName value
  | .address, value => value.WellFormed
  | .inventory, value => value.WellFormed
  | .inventoryList, value => ∀ item ∈ value, item.WellFormed
  | .versionMessage, value => value.WellFormed
  | .reject, value => value.WellFormed
  | .rawMessage, value => value.WellFormed
  | .vector element, value => ∀ item ∈ value, element.WellFormed item
  | .pair first second, value => first.WellFormed value.1 ∧ second.WellFormed value.2
  | .record fields, value => fields.WellFormed value
  -- The types of these have no value that is not meant.
  | .truth _, _ | .varInt, _ | .network, _ | .serviceFlags, _ => True
  | .inventoryType, _ | .rejectReason, _ | .broken .., _ => True

/-- A record of these fields holds a value of its own under every name. -/
def Fields.WellFormed : (fields : Fields) → fields.Val → Prop
  | .nil, _ => True
  | .cons (.ordinary ..) format rest, value => format.WellFormed value.1 ∧ rest.WellFormed value.2
  | .cons .prototype format rest, value =>
    value.1.IsOwn format.WellFormed ∧ rest.WellFormed value.2

end

/-- The widths for which there are byte strings of fixed length. -/
def Format.fixedWidths : List Nat := [2, 4, 8, 12, 16, 32, 33]

/-- Whether a leaf is one of those that reading is promised for. -/
def Format.isSupported : Format → Bool
  | .fixedBytes length => length ∈ fixedWidths
  | .broken .. => false
  | _ => true

/-! ## Sound decoders -/

/-- A failure that bytes can account for: any consensus error but the one for the flag of
transactions with witnesses, since no format has that flag. -/
def Failure.IsOfBytes : Failure → Prop
  | .fault _ => False
  | .consensus (.unsupportedSegwitFlag _) => False
  | .consensus _ => True

namespace Decoder

variable {α β : Type} {domain : α → Prop}

/-- A value of the domain, or a failure that the bytes account for. -/
def IsSound (domain : α → Prop) : Except Failure α → Prop
  | .ok value => domain value
  | .error failure => failure.IsOfBytes

/-- Every end of the decoder is sound. -/
def Sound (decoder : Decoder α) (domain : α → Prop) : Prop :=
  decoder.Ends (IsSound domain)

/-- Behind a value of the domain, the next decoder may rely on it. -/
theorem Sound.bind {decoder : Decoder α} {next : α → Decoder β} {range : β → Prop}
    (sound : decoder.Sound domain) (behind : ∀ value, domain value → (next value).Sound range) :
    (decoder.bind next).Sound range :=
  Ends.bind sound behind fun _ accounted => accounted

theorem Sound.mono {decoder : Decoder α} {range : α → Prop} (sound : decoder.Sound domain)
    (weaker : ∀ value, domain value → range value) : decoder.Sound range := by
  rw [← bind_done decoder]
  exact sound.bind weaker

theorem sound_ofExcept {checked : Except ConsensusError α}
    (accepted : ∀ value, checked = .ok value → domain value)
    (rejected : ∀ error, checked = .error error → (Failure.consensus error).IsOfBytes) :
    (ofExcept checked).Sound domain := by
  cases checked with
  | ok value => exact accepted value rfl
  | error error => exact rejected error rfl

theorem sound_ofResult {result : Except Failure α} (sound : IsSound domain result) :
    (ofResult result).Sound domain := by
  cases result with
  | ok value => exact sound
  | error failure => exact sound

theorem Sound.times {element : Decoder α} (sound : element.Sound domain) (count : Nat) :
    (Decoder.times count element).Sound
      fun values => values.length = count ∧ ∀ value ∈ values, domain value := by
  induction count with
  | zero => exact ⟨rfl, fun value inside => absurd inside List.not_mem_nil⟩
  | succ count ih =>
    rw [times_succ]
    refine sound.bind fun value first => ih.bind fun values rest => ?_
    refine ⟨?_, ?_⟩
    · rw [List.length_cons, rest.1]
    · intro other inside
      rcases List.mem_cons.mp inside with rfl | behind
      · exact first
      · exact rest.2 other behind

/-- What a sound decoder makes of bytes is sound, also when it runs out of them. -/
theorem Sound.outcome {decoder : Decoder α} (sound : decoder.Sound domain) (bytes : Bytes) :
    IsSound domain (decoder.parse bytes).1 := by
  cases short : decoder.starves bytes with
  | false => exact Ends.parse sound short
  | true =>
    obtain ⟨needed, got, parsed⟩ := parse_of_starves short
    rw [parsed]
    trivial

theorem Sound.of_parse {decoder : Decoder α} (sound : decoder.Sound domain) {bytes rest : Bytes}
    {value : α} (parsed : decoder.parse bytes = (.ok value, rest)) : domain value := by
  have ends := sound.outcome bytes
  rw [parsed] at ends
  exact ends

/-- Bytes left over are accounted for by the bytes as well. -/
theorem Sound.deserialize {decoder : Decoder α} (sound : decoder.Sound domain) (bytes : Bytes) :
    IsSound domain (decoder.deserialize bytes) := by
  have ends := sound.outcome bytes
  rw [Decoder.deserialize, deserializePartial_eq]
  generalize decoder.parse bytes = result at ends
  obtain ⟨outcome, rest⟩ := result
  cases outcome with
  | error failure => exact ends
  | ok value =>
    dsimp only
    split
    · exact ends
    · trivial

theorem IsSound.map {result : Except Failure α} (sound : IsSound domain result) {carry : α → β}
    {range : β → Prop} (kept : ∀ value, domain value → range (carry value)) :
    IsSound range (result.map carry) := by
  cases result with
  | ok value => exact kept value sound
  | error failure => exact sound

end Decoder

/-! ## Codecs and their domains -/

namespace Codec

variable {α β : Type} {domain : α → Prop} {range : β → Prop}

/-- Reading yields values of the domain, and fails only as the bytes account for. -/
structure Yields (codec : Codec α) (domain : α → Prop) : Prop where
  decode : codec.decode.Sound domain

theorem yields_unsigned (order : ByteOrder) (width : Nat) :
    (unsigned order width).Yields fun value => value.isUnsigned (8 * width) = true := by
  constructor
  intro bytes size
  refine Number.isUnsigned_iff.mpr ⟨order.read bytes, rfl, Int.natCast_nonneg _, ?_⟩
  rw [← size]
  exact Int.ofNat_lt.mpr (order.read_lt bytes)

theorem yields_signed (order : ByteOrder) (width : Nat) :
    (signed order width).Yields fun value => value.isSigned (8 * width) = true := by
  constructor
  intro bytes size
  refine Number.isSigned_iff.mpr ⟨order.readSigned bytes, rfl, ?_⟩
  rw [← size]
  exact order.readSigned_bounds bytes

theorem yields_u64 : u64.Yields fun value => isUnsigned64 value = true := by
  constructor
  intro bytes size
  refine isUnsigned64_iff.mpr ⟨Int.natCast_nonneg _, ?_⟩
  rw [← size]
  exact Int.ofNat_lt.mpr (ByteOrder.little.read_lt bytes)

theorem yields_i64 : i64.Yields fun value => isSigned64 value = true := by
  constructor
  intro bytes size
  refine isSigned64_iff.mpr ?_
  rw [← size]
  exact ByteOrder.little.readSigned_bounds bytes

theorem yields_bool : bool.Yields fun _ => True :=
  ⟨fun _ _ => trivial⟩

theorem yields_fixedBytes (length : Nat) :
    (fixedBytes length).Yields fun value => value.length = length :=
  ⟨fun _ size => size⟩

/-- Values that are not rejected stand for values of the new domain. -/
theorem Yields.refine {inner : Codec β} (yields : inner.Yields range) (wire : α → β)
    {ofWire : β → Except ConsensusError α}
    (accepted : ∀ onWire value, range onWire → ofWire onWire = .ok value → domain value)
    (rejected : ∀ onWire error, ofWire onWire = .error error →
      (Failure.consensus error).IsOfBytes) :
    (inner.refine wire ofWire).Yields domain :=
  ⟨yields.decode.bind fun onWire inRange =>
    Decoder.sound_ofExcept (fun value => accepted onWire value inRange) (rejected onWire)⟩

theorem Yields.map {inner : Codec β} (yields : inner.Yields range) (wire : α → β) {ofWire : β → α}
    (kept : ∀ onWire, range onWire → domain (ofWire onWire)) :
    (inner.map wire ofWire).Yields domain :=
  ⟨yields.decode.bind kept⟩

theorem Yields.pair {first : Codec α} {second : Codec β} (firstYields : first.Yields domain)
    (secondYields : second.Yields range) :
    (first.pair second).Yields fun value => domain value.1 ∧ range value.2 :=
  ⟨firstYields.decode.bind fun _ left => secondYields.decode.bind fun _ right => ⟨left, right⟩⟩

theorem yields_coded {width : Nat} {all : List α} {code : α → Nat}
    {unknown : Number → ConsensusError}
    (rejected : ∀ number, (Failure.consensus (unknown number)).IsOfBytes) :
    (coded width all code unknown).Yields fun _ => True := by
  refine (yields_unsigned .little width).refine _ (fun _ _ _ _ => trivial) ?_
  intro number error failed
  split at failed
  · cases failed
  · cases failed
    exact rejected number

end Codec

/-! ## Magnitudes, counts and what they count -/

namespace VarInt

theorem sound_decodeWide (width shorter : Nat) :
    (decodeWide width shorter).Sound fun _ => True := by
  intro bytes _
  dsimp only
  split
  · trivial
  · trivial

theorem sound_decode : decode.Sound fun _ => True := by
  intro bytes _
  dsimp only
  split
  · exact sound_decodeWide 8 0xffffffff
  · split
    · exact sound_decodeWide 4 0xffff
    · split
      · exact sound_decodeWide 2 0xfc
      · trivial

end VarInt

namespace Codec

variable {α : Type}

/-- A count that passes the check is within the ceiling, at one byte for each element at
least. -/
theorem sound_checkAllocation (count bytes : Nat) :
    (Decoder.ofResult (checkAllocation count (.finite bytes))).Sound
      fun checked => checked ≤ maxSequenceSize := by
  rw [Decoder.ofResult_checkAllocation]
  refine Decoder.sound_ofExcept ?_ ?_
  · intro checked allowed
    obtain ⟨rfl, room⟩ := Demand.withinCeiling_eq_ok allowed
    exact Nat.le_trans (Nat.le_mul_of_pos_right _ (Nat.le_max_left 1 bytes)) room
  · intro error failed
    rw [withinCeiling] at failed
    split at failed
    · cases failed
      trivial
    · split at failed
      · cases failed
        trivial
      · cases failed

theorem sound_decodeCount (bytes : Nat) :
    (decodeCount (.finite bytes)).Sound fun count => count ≤ maxSequenceSize :=
  VarInt.sound_decode.bind fun _ _ => sound_checkAllocation _ _

theorem Yields.vector {element : Codec α} {domain : α → Prop} (yields : element.Yields domain)
    (finite : element.elementSize.IsFinite) :
    element.vector.Yields fun values => ∀ value ∈ values, domain value := by
  constructor
  rw [Codec.vector, finite.eq_toNat]
  exact (sound_decodeCount _).bind fun count _ =>
    (yields.decode.times count).mono fun _ read => read.2

theorem yields_varBytes : varBytes.Yields fun value => value.length ≤ maxSequenceSize := by
  refine ⟨(sound_decodeCount 1).bind fun count small bytes size => ?_⟩
  change bytes.length ≤ maxSequenceSize
  rw [size]
  exact small

theorem yields_varString : varString.Yields fun value => value.isWellFormed = true := by
  refine ⟨yields_varBytes.decode.bind fun bytes _ => ?_⟩
  split
  · next text read => exact (Text.toUtf8_of_ofUtf8? read).1
  · trivial

theorem yields_checkedData : checkedData.Yields fun value => value.length ≤ maxSequenceSize := by
  constructor
  intro field _
  refine (sound_checkAllocation _ 1).bind fun length small => ?_
  intro claimed _ data size
  dsimp only
  split
  · change data.length ≤ maxSequenceSize
    rw [size]
    exact small
  · trivial

end Codec

/-! ## Records -/

/-- A text whose units are bytes has no surrogates. -/
theorem Text.isWellFormed_map_toUInt16 (bytes : Bytes) :
    (Text.mk (bytes.map UInt8.toUInt16)).isWellFormed = true := by
  rw [← ofChars_map_ofNat]
  exact isWellFormed_iff.mpr ⟨_, rfl⟩

theorem Command.yields_codec : codec.Yields IsName := by
  constructor
  intro field size
  refine Decoder.sound_ofExcept ?_ ?_
  · intro name accepted
    obtain ⟨noNul, ascii, rfl⟩ := nameOfField_eq_ok.mp accepted
    have bytes := Text.toUtf8_of_isAscii ascii
    have short : (trim field).length ≤ fieldSize := by
      obtain ⟨count, padded⟩ := exists_eq_trim_append field
      rw [← size]
      conv => rhs; rw [padded]
      rw [List.length_append]
      exact Nat.le_add_right _ _
    refine ⟨Text.isWellFormed_map_toUInt16 _, checkName_eq_ok.mpr ⟨rfl, ?_⟩⟩
    rw [bytes]
    exact ⟨ascii, noNul, short⟩
  · intro error failed
    rw [nameOfField] at failed
    split at failed
    · cases failed
      trivial
    · split at failed
      · cases failed
      · cases failed
        trivial

theorem Network.yields_codec : codec.Yields fun _ => True := by
  rw [codec_eq_coded]
  exact Codec.yields_coded fun _ => trivial

theorem InventoryType.yields_codec : codec.Yields fun _ => True := by
  rw [codec_eq_coded]
  exact Codec.yields_coded fun _ => trivial

theorem RejectReason.yields_codec : codec.Yields fun _ => True := by
  rw [codec_eq_coded]
  exact Codec.yields_coded fun _ => trivial

theorem ServiceFlags.yields_codec : codec.Yields fun _ => True :=
  Codec.yields_u64.map _ fun _ _ => trivial

namespace Address

theorem yields_groupsCodec : groupsCodec.Yields
    fun groups => groups.length = groupCount ∧ ∀ group ∈ groups, group.isUnsigned 16 = true :=
  ⟨(Codec.yields_unsigned .big 2).decode.times groupCount⟩

theorem yields_codec : codec.Yields WellFormed := by
  refine (ServiceFlags.yields_codec.pair
    (yields_groupsCodec.pair (Codec.yields_unsigned .big 2))).map _ ?_
  rintro ⟨services, groups, port⟩ ⟨-, ⟨count, inside⟩, fits⟩
  exact ⟨count, inside, fits⟩

end Address

namespace Inventory

theorem yields_codec : codec.Yields WellFormed := by
  refine (InventoryType.yields_codec.pair (Codec.yields_fixedBytes 32)).map _ ?_
  rintro ⟨kind, hash⟩ ⟨-, size⟩
  exact ⟨size⟩

theorem yields_listCodec : listCodec.Yields fun items => ∀ item ∈ items, item.WellFormed :=
  yields_codec.vector (by rw [elementSize_codec]; trivial)

end Inventory

theorem VersionMessage.yields_codec : codec.Yields WellFormed := by
  refine ((Codec.yields_unsigned .little 4).pair (ServiceFlags.yields_codec.pair
    (Codec.yields_i64.pair (Address.yields_codec.pair (Address.yields_codec.pair
      (Codec.yields_u64.pair (Codec.yields_varString.pair
        ((Codec.yields_signed .little 4).pair Codec.yields_bool)))))))).map _ ?_
  rintro ⟨version, services, timestamp, receiver, sender, nonce, userAgent, startHeight, relay⟩
    ⟨versionFits, -, timestampFits, receiverFits, senderFits, nonceFits, agentFits, heightFits, -⟩
  exact ⟨versionFits, timestampFits, receiverFits, senderFits, nonceFits, agentFits, heightFits⟩

namespace Reject

theorem yields_messageCodec : messageCodec.Yields fun message => message.isWellFormed = true :=
  ⟨Codec.yields_varString.decode⟩

theorem yields_codec : codec.Yields WellFormed := by
  refine (yields_messageCodec.pair (RejectReason.yields_codec.pair
    (Codec.yields_varString.pair (Codec.yields_fixedBytes 32)))).map _ ?_
  rintro ⟨message, code, reason, hash⟩ ⟨messageFits, -, reasonFits, size⟩
  exact ⟨messageFits, reasonFits, size⟩

end Reject

/-! ## Messages and frames -/

namespace NetworkMessage

theorem yields_peersCodec : peersCodec.Yields
    fun peers => ∀ peer ∈ peers, peer.1.isUnsigned 32 = true ∧ peer.2.WellFormed :=
  ((Codec.yields_unsigned .little 4).pair Address.yields_codec).vector (by decide +kernel)

end NetworkMessage

/-- What a layout calls for is read as a message of the domain. -/
def Layout.Sound : Layout → Prop
  | .empty message => message.WellFormed
  | .carries codec message => codec.Yields fun value => (message value).WellFormed

theorem Layout.Sound.read {layout : Layout} (sound : layout.Sound) (payload : Bytes) :
    Decoder.IsSound NetworkMessage.WellFormed (layout.read payload) := by
  cases layout with
  | empty message =>
    rw [Layout.read]
    split
    · exact sound
    · trivial
  | carries codec message =>
    have alone := (Codec.Yields.decode sound).deserialize payload
    exact alone.map fun _ kept => kept

theorem Command.sound_layout (command : Command) : command.layout.Sound := by
  cases command with
  | version => exact VersionMessage.yields_codec
  | addr => exact NetworkMessage.yields_peersCodec
  | inv => exact Inventory.yields_listCodec
  | getdata => exact Inventory.yields_listCodec
  | notfound => exact Inventory.yields_listCodec
  | ping => exact Codec.yields_u64
  | pong => exact Codec.yields_u64
  | reject => exact Reject.yields_codec
  | verack => trivial
  | getaddr => trivial
  | sendheaders => trivial

/-- A payload is read as a message of the domain, or fails as its bytes or its name
account for. -/
theorem NetworkMessage.isSound_decodePayload (name : Text) (payload : Bytes) :
    Decoder.IsSound WellFormed (decodePayload name payload) := by
  rw [decodePayload]
  cases Command.ofName? name with
  | none => trivial
  | some command =>
    dsimp only
    rw [ofPayload_eq_read]
    exact command.sound_layout.read payload

theorem RawMessage.yields_codec : codec.Yields WellFormed := by
  refine ⟨(Codec.yields_unsigned .little 4).decode.bind fun magic fits => ?_⟩
  refine Command.yields_codec.decode.bind fun name _ => ?_
  refine Codec.yields_checkedData.decode.bind fun data _ => ?_
  refine (Decoder.sound_ofResult (NetworkMessage.isSound_decodePayload name data)).bind ?_
  intro payload wellFormed
  exact ⟨fits, wellFormed⟩

/-! ## Formats -/

mutual

/-- A format of supported leaves yields values of its domain, if its records keep what is
assigned to them and its elements have sizes in bytes. -/
theorem Format.yields : (format : Format) → format.every Format.isSupported = true →
    format.isOrdinary = true → format.isSized = true → format.codec.Yields format.WellFormed
  | .u8, _, _, _ => Codec.yields_unsigned .little 1
  | .u16, _, _, _ => Codec.yields_unsigned .little 2
  | .u32, _, _, _ => Codec.yields_unsigned .little 4
  | .u64, _, _, _ => Codec.yields_u64
  | .i8, _, _, _ => Codec.yields_signed .little 1
  | .i16, _, _, _ => Codec.yields_signed .little 2
  | .i32, _, _, _ => Codec.yields_signed .little 4
  | .i64, _, _, _ => Codec.yields_i64
  | .u16Network, _, _, _ => Codec.yields_unsigned .big 2
  | .truth false, _, _, _ => Codec.yields_bool
  | .truth true, _, _, _ => Codec.yields_bool.map _ fun _ _ => trivial
  | .varInt, _, _, _ => ⟨VarInt.sound_decode⟩
  | .fixedBytes length, _, _, _ => Codec.yields_fixedBytes length
  | .varBytes, _, _, _ => Codec.yields_varBytes
  | .varString, _, _, _ => Codec.yields_varString
  | .commandString, _, _, _ => Command.yields_codec
  | .checkedData, _, _, _ => Codec.yields_checkedData
  | .network, _, _, _ => Network.yields_codec
  | .serviceFlags, _, _, _ => ServiceFlags.yields_codec
  | .inventoryType, _, _, _ => InventoryType.yields_codec
  | .rejectReason, _, _, _ => RejectReason.yields_codec
  | .address, _, _, _ => Address.yields_codec
  | .inventory, _, _, _ => Inventory.yields_codec
  | .inventoryList, _, _, _ => Inventory.yields_listCodec
  | .versionMessage, _, _, _ => VersionMessage.yields_codec
  | .reject, _, _, _ => Reject.yields_codec
  | .rawMessage, _, _, _ => RawMessage.yields_codec
  | .broken .., supported, _, _ => by cases supported
  | .vector element, supported, ordinary, sized => by
    obtain ⟨finite, inside⟩ := Bool.and_eq_true_iff.mp sized
    exact (element.yields supported ordinary inside).vector (of_decide_eq_true finite)
  | .pair first second, supported, ordinary, sized => by
    obtain ⟨supportedFirst, supportedSecond⟩ := Bool.and_eq_true_iff.mp supported
    obtain ⟨ordinaryFirst, ordinarySecond⟩ := Bool.and_eq_true_iff.mp ordinary
    obtain ⟨sizedFirst, sizedSecond⟩ := Bool.and_eq_true_iff.mp sized
    exact (first.yields supportedFirst ordinaryFirst sizedFirst).pair
      (second.yields supportedSecond ordinarySecond sizedSecond)
  | .record fields, supported, ordinary, sized => fields.yields supported ordinary sized (.finite 0)

theorem Fields.yields : (fields : Fields) → fields.every Format.isSupported = true →
    fields.isOrdinary = true → fields.isSized = true →
      (earlier : Size) → (fields.codecBehind earlier).Yields fields.WellFormed
  | .nil, _, _, _, _ => ⟨trivial⟩
  | .cons (.ordinary ..) format rest, supported, ordinary, sized, earlier => by
    obtain ⟨supportedFirst, supportedRest⟩ := Bool.and_eq_true_iff.mp supported
    obtain ⟨ordinaryFirst, ordinaryRest⟩ := Bool.and_eq_true_iff.mp ordinary
    obtain ⟨sizedFirst, sizedRest⟩ := Bool.and_eq_true_iff.mp sized
    have others := rest.yields supportedRest ordinaryRest sizedRest
      (earlier + format.codec.elementSize)
    exact ⟨((format.yields supportedFirst ordinaryFirst sizedFirst).pair others).decode⟩
  | .cons .prototype _ _, _, ordinary, _, _ => by cases ordinary

end

end PeerWire
