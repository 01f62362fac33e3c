import PeerWire.RawMessage
import PeerWire.Proofs.PayloadLaws

/-!
# Laws of frames

A raw message is a frame: a header of twenty-four bytes and the payload. A frame is
written whenever the magic fits its field, for every command fits its own, and the
payload is written.

Reading demands room for the payload as a whole before it looks inside. That demand
is the only one that a frame can be refused for, since it covers those of the
payload.
-/

set_option autoImplicit false

namespace PeerWire

theorem Command.ofName?_name (command : Command) : ofName? command.name = some command := by
  cases command <;> rfl

/-- A name that is known is the name of its command. -/
theorem Command.name_of_ofName? {name : Text} {command : Command}
    (known : ofName? name = some command) : command.name = name := by
  rw [ofName?] at known
  exact of_decide_eq_true
    (List.find?_some (p := fun other : Command => decide (Text.ofString other.name = name)) known)

/-- Every command fits its field. -/
theorem Command.exists_serialize_name (command : Command) :
    ∃ bytes, codec.serialize command.name = .ok bytes := by
  cases command <;> exact ⟨_, rfl⟩

namespace RawMessage

/-- The bytes in front of a payload: magic, command, length, checksum. -/
def headerSize : Nat := 24

/-- A frame is refused for the length of its payload only. -/
def demands (raw : RawMessage) : List Demand :=
  match raw.payload.encodePayload with
  | .ok payload => [⟨payload.length, 1⟩]
  | .error _ => []

theorem demands_eq {raw : RawMessage} {payload : Bytes}
    (written : raw.payload.encodePayload = .ok payload) : raw.demands = [⟨payload.length, 1⟩] := by
  rw [demands, written]

/-- A frame is written in three parts, of which the last is put together first. -/
theorem encode_codec (raw : RawMessage) :
    codec.encode raw
      = (Codec.u32.encode raw.magic).andThen
          ((Command.codec.encode raw.payload.command.name).andThen
            (.ofExcept raw.payload.encodePayload Codec.checkedData.encode)) :=
  Emission.bind_bind_bind _ _ _

/-- A frame is its magic, its command and its payload behind length and checksum. -/
theorem serialize_codec_eq_ok {raw : RawMessage} {bytes : Bytes} :
    codec.serialize raw = .ok bytes
      ↔ ∃ magic name payload framed, Codec.u32.serialize raw.magic = .ok magic
          ∧ Command.codec.serialize raw.payload.command.name = .ok name
          ∧ raw.payload.encodePayload = .ok payload
          ∧ Codec.checkedData.serialize payload = .ok framed
          ∧ bytes = magic ++ (name ++ framed) := by
  rw [Codec.serialize, encode_codec, Emission.toExcept_andThen_eq_ok]
  simp only [Emission.toExcept_andThen_eq_ok, Emission.toExcept_ofExcept_eq_ok]
  constructor
  · rintro ⟨magic, _, wroteMagic, ⟨name, framed, wroteName, ⟨payload, wrotePayload, wroteFramed⟩,
      rfl⟩, rfl⟩
    exact ⟨magic, name, payload, framed, wroteMagic, wroteName, wrotePayload, wroteFramed, rfl⟩
  · rintro ⟨magic, name, payload, framed, wroteMagic, wroteName, wrotePayload, wroteFramed, rfl⟩
    exact ⟨magic, _, wroteMagic, ⟨name, framed, wroteName, ⟨payload, wrotePayload, wroteFramed⟩,
      rfl⟩, rfl⟩

/-- A message for a network is written if its payload is and fits the length field. -/
theorem exists_serialize_ofMessage (network : Network) {message : NetworkMessage} {payload : Bytes}
    (wrotePayload : message.encodePayload = .ok payload) (field : payload.length < 0x100000000) :
    ∃ bytes, codec.serialize (ofMessage network message) = .ok bytes := by
  have ⟨magic, wroteMagic⟩ : ∃ magic, Codec.u32.serialize (.int network.magic) = .ok magic := by
    cases network <;> exact ⟨_, rfl⟩
  obtain ⟨name, wroteName⟩ := Command.exists_serialize_name message.command
  have wroteFramed := Codec.serialize_checkedData_eq_ok.mpr ⟨field, rfl⟩
  exact ⟨_, serialize_codec_eq_ok.mpr
    ⟨magic, name, payload, _, wroteMagic, wroteName, wrotePayload, wroteFramed, rfl⟩⟩

theorem length_serialize {raw : RawMessage} {bytes payload : Bytes}
    (written : codec.serialize raw = .ok bytes)
    (wrotePayload : raw.payload.encodePayload = .ok payload) :
    bytes.length = headerSize + payload.length := by
  obtain ⟨magic, name, found, framed, wroteMagic, wroteName, again, wroteFramed, rfl⟩ :=
    serialize_codec_eq_ok.mp written
  cases wrotePayload.symm.trans again
  obtain ⟨⟨-, -, short⟩, rfl⟩ := Command.serialize_codec_eq_ok.mp wroteName
  obtain ⟨-, rfl⟩ := Codec.serialize_checkedData_eq_ok.mp wroteFramed
  have magicSize : magic.length = 4 := Codec.spans_unsigned .little 4 _ _ wroteMagic
  have nameSize : (Command.field (Text.ofString raw.payload.command.name).toUtf8).length = 12 :=
    Command.length_field short
  simp only [List.length_append, magicSize, nameSize, ByteOrder.length_write, length_checksum,
    headerSize]
  omega

/-- The ceiling of the frame covers those inside the payload. -/
theorem refusal?_payload {message : NetworkMessage} {payload : Bytes}
    (written : message.encodePayload = .ok payload) (fits : payload.length ≤ maxSequenceSize) :
    Demand.refusal? message.demands = none := by
  refine Demand.refusal?_eq_none_iff.mpr fun demand inside => ?_
  exact Nat.le_trans (NetworkMessage.room_le_length written inside) fits

/-- What is written of a payload is decoded by the name of its command, or refused
for what is inside. -/
theorem decodePayload_eq {message : NetworkMessage} {payload : Bytes}
    (written : message.encodePayload = .ok payload) :
    NetworkMessage.decodePayload message.command.name payload
      = match Demand.refusal? message.demands with
        | none => .ok message
        | some error => .error (.consensus error) := by
  rw [NetworkMessage.decodePayload, Command.ofName?_name]
  exact NetworkMessage.ofPayload_eq written

/-- Reads what follows the name. -/
def decodeBehindName (magic : Number) (name : Text) : Decoder RawMessage :=
  Codec.checkedData.decode.bind fun data =>
    (Decoder.ofResult (NetworkMessage.decodePayload name data)).bind fun payload =>
      .done ⟨magic, payload⟩

/-- Behind a written magic and a written name, reading goes on with the payload. -/
theorem parse_codec_append {raw : RawMessage} {magic name : Bytes}
    (wroteMagic : Codec.u32.serialize raw.magic = .ok magic)
    (wroteName : Command.codec.serialize raw.payload.command.name = .ok name) (rest : Bytes) :
    codec.decode.parse (magic ++ (name ++ rest))
      = (decodeBehindName raw.magic raw.payload.command.name).parse rest := by
  have readMagic : Codec.u32.decode.parse (magic ++ (name ++ rest))
      = (.ok raw.magic, name ++ rest) :=
    (Codec.restores_unsigned .little 4).restored wroteMagic rfl _
  have readName := Command.restores_codec.restored wroteName rfl rest
  rw [codec, Decoder.parse_bind_of_ok readMagic, decodeBehind, Decoder.parse_bind_of_ok readName,
    decodeBehindName]

theorem restores_codec : codec.Restores demands where
  restored {raw bytes} written allowed suffix := by
    obtain ⟨magic, name, payload, framed, wroteMagic, wroteName, wrotePayload, wroteFramed, rfl⟩ :=
      serialize_codec_eq_ok.mp written
    rw [demands_eq wrotePayload] at allowed
    have fits := Demand.refusal?_eq_none_iff.mp allowed _ (List.mem_singleton.mpr rfl)
    rw [Demand.room_bytes] at fits
    rw [List.append_assoc, List.append_assoc, parse_codec_append wroteMagic wroteName,
      decodeBehindName,
      Decoder.parse_bind_of_ok (Codec.restores_checkedData.restored wroteFramed allowed _),
      decodePayload_eq wrotePayload, refusal?_payload wrotePayload fits, Decoder.ofResult,
      Decoder.bind, Decoder.parse_done]
  refused {raw bytes error} written refusal suffix := by
    obtain ⟨magic, name, payload, framed, wroteMagic, wroteName, wrotePayload, wroteFramed, rfl⟩ :=
      serialize_codec_eq_ok.mp written
    rw [demands_eq wrotePayload] at refusal
    rw [List.append_assoc, List.append_assoc, parse_codec_append wroteMagic wroteName,
      decodeBehindName,
      Decoder.parse_bind_of_error (Codec.restores_checkedData.refused wroteFramed refusal _)]

/-! ## The ceiling of the frame -/

/-- A sequence of 111,111 objects is within the ceiling, and its payload is not. -/
theorem length_listCodec_boundary {items : List Inventory} {payload : Bytes}
    (written : Inventory.listCodec.serialize items = .ok payload) (size : items.length = 111111) :
    payload.length = 4000001 ∧ Demand.refusal? [Inventory.listDemand items] = none := by
  have length := Inventory.spans_codec.length_vector written
  have count : (Codec.countOf 111111).toBytes.length = 5 := by decide
  rw [size, count] at length
  refine ⟨length, ?_⟩
  rw [Inventory.listDemand, size, Inventory.elementSize_codec, Size.toNat]
  decide

/-- Objects can be written behind their count if their hashes are of the right
width. -/
theorem exists_serialize_listCodec {items : List Inventory}
    (hashes : ∀ item ∈ items, item.hash.length = 32) (safe : items.length ≤ Number.maxSafe) :
    ∃ payload, Inventory.listCodec.serialize items = .ok payload := by
  refine Codec.exists_serialize_vector ?_ safe
  rintro ⟨kind, hash⟩ inside
  have ⟨front, wroteKind⟩ : ∃ bytes, InventoryType.codec.serialize kind = .ok bytes := by
    cases kind <;> exact ⟨_, rfl⟩
  have wroteHash : (Codec.fixedBytes 32).serialize hash = .ok hash :=
    Codec.serialize_fixedBytes_eq_ok.mpr ⟨hashes _ inside, rfl⟩
  rw [Inventory.codec, Codec.serialize_map]
  exact ⟨_, Codec.serialize_pair_eq_ok.mpr ⟨front, hash, wroteKind, wroteHash, rfl⟩⟩

/-- A frame that was written is read back exactly if its payload is within the
ceiling. Within it, nothing inside is refused; beyond it, the frame is refused
whatever its payload alone would be read as. A sequence of 111,111 objects is such a
payload: read alone it is the message. -/
theorem deserializePartial_frame {raw : RawMessage} {bytes : Bytes}
    (written : codec.serialize raw = .ok bytes) :
    ∃ payload, raw.payload.encodePayload = .ok payload
      ∧ bytes.length = headerSize + payload.length
      ∧ (payload.length ≤ maxSequenceSize →
          (∀ demand ∈ raw.payload.demands, demand.room ≤ maxSequenceSize)
            ∧ NetworkMessage.decodePayload raw.payload.command.name payload = .ok raw.payload
            ∧ ∀ suffix, codec.decode.deserializePartial (bytes ++ suffix) = .ok ⟨raw, bytes.length⟩)
      ∧ (maxSequenceSize < payload.length → ∀ suffix,
          codec.decode.deserializePartial (bytes ++ suffix)
            = .error (.consensus (.oversizedAllocation payload.length (.int maxSequenceSize))))
      ∧ ∀ items, raw.payload = .inv items → items.length = 111111 →
          payload.length = 4000001
            ∧ NetworkMessage.decodePayload raw.payload.command.name payload = .ok raw.payload := by
  obtain ⟨-, -, payload, framed, -, -, wrotePayload, wroteFramed, -⟩ :=
    serialize_codec_eq_ok.mp written
  have whole := restores_codec.deserializePartial_eq written
  have alone := decodePayload_eq wrotePayload
  rw [demands_eq wrotePayload] at whole
  refine ⟨payload, wrotePayload, length_serialize written wrotePayload, ?_, ?_, ?_⟩
  · intro fits
    have inside := refusal?_payload wrotePayload fits
    have allowed : Demand.refusal? [⟨payload.length, 1⟩] = none := by
      rw [Demand.refusal?, Demand.room_bytes, if_pos fits, Demand.refusal?]
    rw [inside] at alone
    refine ⟨Demand.refusal?_eq_none_iff.mp inside, alone, fun suffix => ?_⟩
    rw [whole suffix, allowed]
  · intro large suffix
    obtain ⟨field, -⟩ := Codec.serialize_checkedData_eq_ok.mp wroteFramed
    rw [whole suffix, Demand.refusal?_of_bytes field large]
  · intro items isInv size
    rw [isInv] at wrotePayload alone ⊢
    obtain ⟨length, allowed⟩ := length_listCodec_boundary wrotePayload size
    rw [NetworkMessage.demands, allowed] at alone
    exact ⟨length, alone⟩

/-- One transaction, announced 111,111 times. -/
def announced : List Inventory :=
  List.replicate 111111 ⟨.transaction, List.replicate 32 0⟩

theorem length_announced : announced.length = 111111 :=
  List.length_replicate

/-- A message of 111,111 objects is written, its payload alone is read as the
message, and its frame is refused. A message of one nonce comes back, whatever
follows. -/
theorem deserializePartial_frame_at_boundary :
    (∃ bytes payload, codec.serialize (ofMessage .bitcoin (.inv announced)) = .ok bytes
        ∧ (NetworkMessage.inv announced).encodePayload = .ok payload
        ∧ NetworkMessage.decodePayload "inv" payload = .ok (.inv announced)
        ∧ codec.decode.deserializePartial bytes
          = .error (.consensus (.oversizedAllocation 4000001 (.int maxSequenceSize))))
      ∧ ∃ bytes, codec.serialize (ofMessage .bitcoin (.ping 1)) = .ok bytes
          ∧ codec.decode.deserializePartial (bytes ++ [0xff])
            = .ok ⟨ofMessage .bitcoin (.ping 1), 32⟩ := by
  constructor
  · have ⟨payload, wrotePayload⟩ : ∃ payload,
        Inventory.listCodec.serialize announced = .ok payload := by
      refine exists_serialize_listCodec ?_ (by rw [length_announced]; decide)
      intro item inside
      rw [List.eq_of_mem_replicate inside]
      rfl
    obtain ⟨size, -⟩ := length_listCodec_boundary wrotePayload length_announced
    have ⟨bytes, written⟩ : ∃ bytes,
        codec.serialize (ofMessage .bitcoin (.inv announced)) = .ok bytes :=
      exists_serialize_ofMessage .bitcoin wrotePayload (by rw [size]; decide)
    obtain ⟨found, wroteFound, -, -, refused, boundary⟩ := deserializePartial_frame written
    obtain ⟨length, alone⟩ := boundary announced rfl length_announced
    have outcome := refused (by rw [length]; decide) []
    rw [length, List.append_nil] at outcome
    exact ⟨bytes, found, written, wroteFound, alone, outcome⟩
  · have wroteNonce : (NetworkMessage.ping 1).encodePayload = .ok [1, 0, 0, 0, 0, 0, 0, 0] := rfl
    obtain ⟨bytes, written⟩ := exists_serialize_ofMessage .bitcoin wroteNonce (by decide)
    obtain ⟨payload, wrotePayload, length, restored, -⟩ := deserializePartial_frame written
    cases wroteNonce.symm.trans wrotePayload
    obtain ⟨-, -, outcome⟩ := restored (by decide)
    exact ⟨bytes, written, by rw [outcome, length]; rfl⟩

end RawMessage

end PeerWire
