import PeerWire.Proofs.FrameGrammar

/-!
# Frames read and written again

Every codec of a payload is canonical, but for two. A rejection may be read and not be
written at all. An introduction ends in a truth value, which any byte other than zero
reads as true and only one is written for. A frame that was read and is no rejection is
therefore written as it was, up to that byte: where the last byte of an introduction is
neither zero nor one, it comes back as one, and the checksum in the header with it.

Nothing else can change, since every field in front of the checksum is canonical and
the payload keeps its length. What is written reads as the same message, so that
reading and writing settle a frame once and for all (`RawMessage.exists_serialize_frame`).
-/

set_option autoImplicit false

attribute [local instance (high)] instPowNat

namespace PeerWire

/-! ## Flags at the end -/

/-- The byte that is written for the truth value that a byte reads as. -/
def flagByte (byte : UInt8) : UInt8 :=
  if byte = 0 then 0 else 1

/-- The second byte string is the first one with the last byte turned into a flag. -/
def AgreeUpToFlag (read written : Bytes) : Prop :=
  ∃ front byte, read = front ++ [byte] ∧ written = front ++ [flagByte byte]

namespace AgreeUpToFlag

variable {read written : Bytes}

theorem append_left (agree : AgreeUpToFlag read written) (before : Bytes) :
    AgreeUpToFlag (before ++ read) (before ++ written) := by
  obtain ⟨front, byte, rfl, rfl⟩ := agree
  exact ⟨before ++ front, byte, (List.append_assoc _ _ _).symm, (List.append_assoc _ _ _).symm⟩

theorem length_eq (agree : AgreeUpToFlag read written) : written.length = read.length := by
  obtain ⟨front, byte, rfl, rfl⟩ := agree
  rw [List.length_append, List.length_append, List.length_singleton, List.length_singleton]

theorem getLast?_eq (agree : AgreeUpToFlag read written) :
    ∃ byte, read.getLast? = some byte ∧ written.getLast? = some (flagByte byte) := by
  obtain ⟨front, byte, rfl, rfl⟩ := agree
  exact ⟨byte, List.getLast?_concat, List.getLast?_concat⟩

/-- Only the last byte can differ. -/
theorem getElem?_eq (agree : AgreeUpToFlag read written) {place : Nat}
    (inner : place + 1 ≠ read.length) : written[place]? = read[place]? := by
  obtain ⟨front, byte, rfl, rfl⟩ := agree
  rw [List.length_append, List.length_singleton] at inner
  rcases Nat.lt_trichotomy place front.length with inside | rfl | beyond
  · rw [List.getElem?_append_left inside, List.getElem?_append_left inside]
  · exact absurd rfl inner
  · have short : ∀ last : UInt8, (front ++ [last]).length ≤ place := by
      intro last
      rw [List.length_append, List.length_singleton]
      omega
    rw [List.getElem?_eq_none (short _), List.getElem?_eq_none (short _)]

/-- If the last byte is a flag already, no byte differs. -/
theorem eq_of_flag (agree : AgreeUpToFlag read written)
    (flag : read.getLast? = some 0 ∨ read.getLast? = some 1) : written = read := by
  obtain ⟨front, byte, rfl, rfl⟩ := agree
  rw [List.getLast?_concat] at flag
  rcases flag with zero | one
  · cases zero
    rfl
  · cases one
    rfl

end AgreeUpToFlag

namespace Codec

variable {α β : Type}

/-- A codec ends in a flag if it writes for a value that it read what it read it from,
up to the last byte, which is a flag. -/
def EndsInFlag (codec : Codec α) : Prop :=
  ∀ (bytes rest : Bytes) (value : α), codec.decode.parse bytes = (.ok value, rest) →
    ∃ front written, bytes = front ++ rest ∧ codec.serialize value = .ok written
      ∧ AgreeUpToFlag front written

theorem endsInFlag_bool : bool.EndsInFlag := by
  intro bytes rest value parsed
  obtain ⟨front, suffix, rfl, size, read⟩ := Decoder.parse_take_eq_ok parsed
  obtain ⟨byte, rfl⟩ := List.length_eq_one_iff.mp size
  cases read
  refine ⟨[byte], [flagByte byte], rfl, ?_, [], byte, rfl, rfl⟩
  rw [serialize, bool, Emission.toExcept_chunk, flagByte]
  by_cases zero : byte = 0
  · subst zero
    rfl
  · simp [zero]

/-- A flag at the end of the second part is at the end of the pair. -/
theorem Canonical.pair_endsInFlag {first : Codec α} {second : Codec β}
    (canonical : first.Canonical) (ends : second.EndsInFlag) : (first.pair second).EndsInFlag := by
  intro bytes rest value parsed
  obtain ⟨a, middle, parsedFirst, behind⟩ := Decoder.parse_bind_eq_ok parsed
  obtain ⟨b, left, parsedSecond, last⟩ := Decoder.parse_bind_eq_ok behind
  cases last
  obtain ⟨front, wroteFront, rfl⟩ := canonical _ _ _ parsedFirst
  obtain ⟨back, written, rfl, wroteBack, agree⟩ := ends _ _ _ parsedSecond
  exact ⟨front ++ back, front ++ written, (List.append_assoc _ _ _).symm,
    serialize_pair_eq_ok.mpr ⟨front, written, wroteFront, wroteBack, rfl⟩, agree.append_left front⟩

theorem EndsInFlag.map {inner : Codec β} {wire : α → β} {ofWire : β → α}
    (ends : inner.EndsInFlag) (inverse : ∀ onWire, wire (ofWire onWire) = onWire) :
    (inner.map wire ofWire).EndsInFlag := by
  intro bytes rest value parsed
  obtain ⟨onWire, left, first, last⟩ := Decoder.parse_bind_eq_ok parsed
  cases last
  obtain ⟨front, written, split, wrote, agree⟩ := ends _ _ _ first
  refine ⟨front, written, split, ?_, agree⟩
  rw [serialize_map, inverse]
  exact wrote

theorem EndsInFlag.exists_serialize {codec : Codec α} (ends : codec.EndsInFlag) {bytes : Bytes}
    {value : α} (read : codec.decode.deserialize bytes = .ok value) :
    ∃ written, codec.serialize value = .ok written ∧ AgreeUpToFlag bytes written := by
  obtain ⟨front, written, split, wrote, agree⟩ :=
    ends _ _ _ (Decoder.deserialize_eq_ok_iff.mp read)
  rw [List.append_nil] at split
  exact ⟨written, wrote, split ▸ agree⟩

end Codec

theorem VersionMessage.endsInFlag_codec : codec.EndsInFlag :=
  ((Codec.canonical_unsigned .little 4).pair_endsInFlag
    (ServiceFlags.canonical_codec.pair_endsInFlag (Codec.canonical_i64.pair_endsInFlag
      (Address.canonical_codec.pair_endsInFlag (Address.canonical_codec.pair_endsInFlag
        (Codec.canonical_u64.pair_endsInFlag (Codec.canonical_varString.pair_endsInFlag
          ((Codec.canonical_signed .little 4).pair_endsInFlag
            Codec.endsInFlag_bool)))))))).map fun _ => rfl

/-! ## Payloads -/

namespace NetworkMessage

theorem canonical_peersCodec : peersCodec.Canonical :=
  ((Codec.canonical_unsigned .little 4).pair Address.canonical_codec).vector

theorem ofEmpty_eq_ok {given message : NetworkMessage} {payload : Bytes}
    (read : ofEmpty given payload = .ok message) : payload = [] ∧ message = given := by
  rw [ofEmpty] at read
  split at read
  · next empty =>
    cases read
    exact ⟨empty, rfl⟩
  · cases read

/-- A message made from a value comes from a value. -/
theorem exists_of_map_eq_ok {α : Type} {read : Except Failure α} {carry : α → NetworkMessage}
    {message : NetworkMessage} (made : read.map carry = .ok message) :
    ∃ value, read = .ok value ∧ message = carry value := by
  cases read with
  | error failure => cases made
  | ok value =>
    cases made
    exact ⟨value, rfl, rfl⟩

/-- A message that was read has the command that it was read for. -/
theorem command_of_ofPayload {command : Command} {payload : Bytes} {message : NetworkMessage}
    (read : ofPayload command payload = .ok message) : message.command = command := by
  cases command with
  | version | addr | inv | getdata | notfound | ping | pong | reject =>
    obtain ⟨value, -, rfl⟩ := exists_of_map_eq_ok read
    rfl
  | verack | getaddr | sendheaders =>
    obtain ⟨-, rfl⟩ := ofEmpty_eq_ok read
    rfl

/-- A payload that was read for a name was read for the command of that name. -/
theorem decodePayload_eq_ok {name : Text} {payload : Bytes} {message : NetworkMessage}
    (read : decodePayload name payload = .ok message) :
    name = message.command.name ∧ ofPayload message.command payload = .ok message := by
  rw [decodePayload] at read
  cases known : Command.ofName? name with
  | none =>
    rw [known] at read
    cases read
  | some command =>
    rw [known] at read
    obtain rfl := command_of_ofPayload read
    exact ⟨(Command.name_of_ofName? known).symm, read⟩

/-- The payload that a message was read from is written for it again, up to a flag at
the end of an introduction. A rejection may not be written at all. -/
theorem exists_encodePayload {command : Command} {payload : Bytes} {message : NetworkMessage}
    (read : ofPayload command payload = .ok message) (writable : command ≠ .reject) :
    ∃ written, message.encodePayload = .ok written
      ∧ (command = .version → AgreeUpToFlag payload written)
      ∧ (command ≠ .version → written = payload) := by
  cases command with
  | version =>
    obtain ⟨introduction, alone, rfl⟩ := exists_of_map_eq_ok read
    obtain ⟨written, wrote, agree⟩ := VersionMessage.endsInFlag_codec.exists_serialize alone
    exact ⟨written, wrote, fun _ => agree, fun other => absurd rfl other⟩
  | addr =>
    obtain ⟨peers, alone, rfl⟩ := exists_of_map_eq_ok read
    exact ⟨payload, canonical_peersCodec.serialize_eq alone, nofun, fun _ => rfl⟩
  | inv | getdata | notfound =>
    obtain ⟨items, alone, rfl⟩ := exists_of_map_eq_ok read
    exact ⟨payload, Inventory.canonical_listCodec.serialize_eq alone, nofun, fun _ => rfl⟩
  | ping | pong =>
    obtain ⟨nonce, alone, rfl⟩ := exists_of_map_eq_ok read
    exact ⟨payload, Codec.canonical_u64.serialize_eq alone, nofun, fun _ => rfl⟩
  | verack | getaddr | sendheaders =>
    obtain ⟨rfl, rfl⟩ := ofEmpty_eq_ok read
    exact ⟨[], rfl, nofun, fun _ => rfl⟩
  | reject => exact absurd rfl writable

end NetworkMessage

/-! ## Frames -/

namespace Frame

/-- The bytes of a frame: magic and command in front, then the length of the payload,
its checksum and the payload. -/
def assemble (front payload : Bytes) : Bytes :=
  front ++ (ByteOrder.little.write 4 payload.length ++ (checksum payload ++ payload))

section Assembled

variable {front payload : Bytes} (size : front.length = 16)
include size

theorem length_assemble : (assemble front payload).length = 24 + payload.length := by
  simp only [assemble, List.length_append, size, ByteOrder.length_write, length_checksum]
  omega

theorem drop_assemble : (assemble front payload).drop 16
    = ByteOrder.little.write 4 payload.length ++ (checksum payload ++ payload) := by
  rw [assemble, List.drop_left' size]

theorem claimedLength_assemble (fits : payload.length ≤ maxSequenceSize) :
    claimedLength (assemble front payload) = payload.length := by
  have field : maxSequenceSize < 0x100000000 := by decide
  rw [claimedLength, drop_assemble size, List.take_left' (ByteOrder.length_write _ _ _),
    Codec.toNat_write_length (Nat.lt_of_le_of_lt fits field)]

theorem payload_assemble (fits : payload.length ≤ maxSequenceSize) :
    Frame.payload (assemble front payload) = payload := by
  have behind : (assemble front payload).drop 24 = payload := by
    rw [← List.drop_drop (i := 8) (j := 16), drop_assemble size, ← List.append_assoc,
      List.drop_left' (by rw [List.length_append, ByteOrder.length_write, length_checksum])]
  rw [Frame.payload, claimedLength_assemble size fits, behind, List.take_length]

/-- In front of the checksum, a frame depends on its payload by its length alone. -/
theorem getElem?_assemble_of_lt {other : Bytes} (same : other.length = payload.length)
    {place : Nat} (before : place < 20) :
    (assemble front other)[place]? = (assemble front payload)[place]? := by
  have head : ∀ contents : Bytes,
      (assemble front contents)[place]?
        = (front ++ ByteOrder.little.write 4 contents.length)[place]? := by
    intro contents
    have size : (front ++ ByteOrder.little.write 4 contents.length).length = 20 := by
      rw [List.length_append, size, ByteOrder.length_write]
    rw [assemble, ← List.append_assoc, List.getElem?_append_left (by omega)]
  rw [head, head, same]

/-- Behind the checksum stands the payload. -/
theorem getElem?_assemble_of_le {place : Nat} (behind : 24 ≤ place) :
    (assemble front payload)[place]? = payload[place - 24]? := by
  have head : (front ++ (ByteOrder.little.write 4 payload.length ++ checksum payload)).length
      = 24 := by
    simp only [List.length_append, size, ByteOrder.length_write, length_checksum]
  rw [assemble, ← List.append_assoc (ByteOrder.little.write 4 payload.length), ← List.append_assoc,
    List.getElem?_append_right (by omega), head]

/-- With the last byte of its payload turned into a flag, a frame changes there and in
the checksum, and nowhere else. -/
theorem getElem?_assemble_of_agree {other : Bytes} (agree : AgreeUpToFlag payload other)
    {place : Nat} (inner : place + 1 ≠ 24 + payload.length) (outside : place < 20 ∨ 24 ≤ place) :
    (assemble front other)[place]? = (assemble front payload)[place]? := by
  rcases outside with before | behind
  · exact getElem?_assemble_of_lt size agree.length_eq before
  · rw [getElem?_assemble_of_le size behind, getElem?_assemble_of_le size behind]
    exact agree.getElem?_eq (by omega)

end Assembled

end Frame

namespace RawMessage

/-- A frame is read exactly if it is put together from a magic and a command, as these
are written, and a payload within the ceiling that is read as the message. -/
theorem parse_codec_eq_ok {bytes rest : Bytes} {raw : RawMessage} :
    codec.decode.parse bytes = (.ok raw, rest)
      ↔ ∃ magic name payload, Codec.u32.serialize raw.magic = .ok magic
          ∧ Command.codec.serialize raw.payload.command.name = .ok name
          ∧ payload.length ≤ maxSequenceSize
          ∧ NetworkMessage.ofPayload raw.payload.command payload = .ok raw.payload
          ∧ bytes = Frame.assemble (magic ++ name) payload ++ rest := by
  constructor
  · intro parsed
    obtain ⟨number, behindMagic, parsedMagic, parsedBehind⟩ := Decoder.parse_bind_eq_ok parsed
    obtain ⟨text, behindName, parsedName, parsedFramed⟩ := Decoder.parse_bind_eq_ok parsedBehind
    obtain ⟨payload, behindData, parsedData, parsedPayload⟩ := Decoder.parse_bind_eq_ok parsedFramed
    obtain ⟨message, behindPayload, decoded, last⟩ := Decoder.parse_bind_eq_ok parsedPayload
    obtain ⟨read, rfl⟩ := Decoder.parse_ofResult_eq_ok decoded
    cases last
    obtain ⟨magic, wroteMagic, splitMagic⟩ := Codec.canonical_unsigned .little 4 _ _ _ parsedMagic
    obtain ⟨name, wroteName, splitName⟩ := Command.canonical_codec _ _ _ parsedName
    obtain ⟨fits, splitData⟩ := Codec.parse_checkedData_eq_ok.mp parsedData
    obtain ⟨rfl, readPayload⟩ := NetworkMessage.decodePayload_eq_ok read
    refine ⟨magic, name, payload, wroteMagic, wroteName, fits, readPayload, ?_⟩
    rw [splitMagic, splitName, splitData]
    simp only [Frame.assemble, List.append_assoc]
  · rintro ⟨magic, name, payload, wroteMagic, wroteName, fits, readPayload, rfl⟩
    have readData : Codec.checkedData.decode.parse
        (ByteOrder.little.write 4 payload.length ++ (checksum payload ++ payload) ++ rest)
        = (.ok payload, rest) := Codec.parse_checkedData_eq_ok.mpr ⟨fits, rfl⟩
    rw [Frame.assemble, List.append_assoc, List.append_assoc magic,
      parse_codec_append wroteMagic wroteName, decodeBehindName, Decoder.parse_bind_of_ok readData,
      NetworkMessage.decodePayload, Command.ofName?_name]
    dsimp only
    rw [readPayload]
    rfl

/-- What is written in front of a payload takes sixteen bytes. -/
theorem length_front {raw : RawMessage} {magic name : Bytes}
    (wroteMagic : Codec.u32.serialize raw.magic = .ok magic)
    (wroteName : Command.codec.serialize raw.payload.command.name = .ok name) :
    (magic ++ name).length = 16 := by
  have magicSize : magic.length = 4 := Codec.spans_unsigned .little 4 _ _ wroteMagic
  obtain ⟨⟨-, -, short⟩, rfl⟩ := Command.serialize_codec_eq_ok.mp wroteName
  rw [List.length_append, magicSize, Command.length_field short]
  rfl

/-- A frame that was read and is no rejection is written with the same length, and what
is written reads as the same message. It is written as it was, unless it is an
introduction that ends in neither zero nor one; then it ends in one, and no byte differs
but the last and the four of the checksum. -/
theorem exists_serialize_frame {bytes : Bytes} {raw : RawMessage}
    (read : codec.decode.deserialize bytes = .ok raw) (writable : raw.payload.command ≠ .reject) :
    ∃ written, codec.serialize raw = .ok written ∧ written.length = bytes.length
      ∧ (raw.payload.command ≠ .version ∨ (Frame.payload bytes).getLast? = some 0
          ∨ (Frame.payload bytes).getLast? = some 1 → written = bytes)
      ∧ (raw.payload.command = .version → ∃ relay, (Frame.payload bytes).getLast? = some relay
          ∧ (2 ≤ relay → (Frame.payload written).getLast? = some 1
            ∧ ∀ place, place + 1 ≠ bytes.length → place < 20 ∨ 24 ≤ place →
                written[place]? = bytes[place]?))
      ∧ codec.decode.deserialize written = .ok raw := by
  obtain ⟨magic, name, payload, wroteMagic, wroteName, fits, readPayload, split⟩ :=
    parse_codec_eq_ok.mp (Decoder.deserialize_eq_ok_iff.mp read)
  rw [List.append_nil] at split
  subst split
  obtain ⟨again, wrotePayload, flagged, same⟩ :=
    NetworkMessage.exists_encodePayload readPayload writable
  have size := length_front wroteMagic wroteName
  -- The fields in front of the checksum, and the ceiling, see nothing of a payload but its
  -- length.
  have length : again.length = payload.length := by
    by_cases isVersion : raw.payload.command = .version
    · exact (flagged isVersion).length_eq
    · rw [same isVersion]
  have fitsAgain : again.length ≤ maxSequenceSize := by omega
  have wroteFramed := Codec.serialize_checkedData_of_fits fitsAgain
  have readAgain : NetworkMessage.ofPayload raw.payload.command again = .ok raw.payload := by
    rw [NetworkMessage.ofPayload_eq wrotePayload, refusal?_payload wrotePayload fitsAgain]
  rw [Frame.length_assemble size, Frame.payload_assemble size fits]
  refine ⟨Frame.assemble (magic ++ name) again, ?_, ?_, ?_, ?_, ?_⟩
  · exact serialize_codec_eq_ok.mpr ⟨magic, name, again, _, wroteMagic, wroteName, wrotePayload,
      wroteFramed, List.append_assoc _ _ _⟩
  · rw [Frame.length_assemble size, length]
  · intro settled
    by_cases isVersion : raw.payload.command = .version
    · rcases settled with other | flag
      · exact absurd isVersion other
      · rw [(flagged isVersion).eq_of_flag flag]
    · rw [same isVersion]
  · intro isVersion
    obtain ⟨relay, last, lastAgain⟩ := (flagged isVersion).getLast?_eq
    refine ⟨relay, last, fun large => ⟨?_, fun place inner outside => ?_⟩⟩
    · have nonzero : relay ≠ 0 := by
        rintro rfl
        exact absurd large (by decide)
      rw [Frame.payload_assemble size fitsAgain, lastAgain, flagByte, if_neg nonzero]
    · exact Frame.getElem?_assemble_of_agree size (flagged isVersion) inner outside
  · refine Decoder.deserialize_eq_ok_iff.mpr (parse_codec_eq_ok.mpr ?_)
    exact ⟨magic, name, again, wroteMagic, wroteName, fitsAgain, readAgain,
      (List.append_nil _).symm⟩

/-- An introduction that says nothing but its protocol version, and wants transactions
relayed. -/
def terse : VersionMessage where
  version := .int 70015
  services := .none
  timestamp := 0
  receiver := ⟨.none, List.replicate 8 (.int 0), .int 0⟩
  sender := ⟨.none, List.replicate 8 (.int 0), .int 0⟩
  nonce := 0
  userAgent := ⟨[]⟩
  startHeight := .int 0
  relay := true

/-- The payload of that introduction, with any byte for the wish. -/
def tersePayload (relay : UInt8) : Bytes :=
  [0x7f, 0x11, 1, 0] ++ List.replicate 81 0 ++ [relay]

/-- The frame of that payload. -/
def terseFrame (relay : UInt8) : Bytes :=
  Frame.assemble [0xf9, 0xbe, 0xb4, 0xd9, 0x76, 0x65, 0x72, 0x73, 0x69, 0x6f, 0x6e, 0, 0, 0, 0, 0]
    (tersePayload relay)

theorem length_tersePayload (relay : UInt8) : (tersePayload relay).length = 86 := rfl

theorem payload_terseFrame (relay : UInt8) :
    Frame.payload (terseFrame relay) = tersePayload relay :=
  Frame.payload_assemble rfl (by rw [length_tersePayload]; decide)

/-- One and seven are both read as the wish. -/
theorem parse_tersePayload {relay : UInt8} (wish : relay ∈ [1, 7]) :
    VersionMessage.codec.decode.parse (tersePayload relay) = (.ok terse, []) := by
  have outcomes : ∀ relay ∈ ([1, 7] : List UInt8),
      (VersionMessage.codec.decode.parse (tersePayload relay)).1.toOption = some terse
        ∧ (VersionMessage.codec.decode.parse (tersePayload relay)).2 = [] := by decide +kernel
  obtain ⟨value, rest⟩ := outcomes relay wish
  cases outcome : (VersionMessage.codec.decode.parse (tersePayload relay)).1 with
  | error failure =>
    rw [outcome] at value
    cases value
  | ok introduction =>
    rw [outcome] at value
    cases value
    exact Prod.ext outcome rest

theorem deserialize_terseFrame {relay : UInt8} (wish : relay ∈ [1, 7]) :
    codec.decode.deserialize (terseFrame relay) = .ok (ofMessage .bitcoin (.version terse)) := by
  have alone := Decoder.deserialize_eq_ok_iff.mpr (parse_tersePayload wish)
  have read : NetworkMessage.ofPayload .version (tersePayload relay) = .ok (.version terse) :=
    congrArg (Except.map NetworkMessage.version) alone
  refine Decoder.deserialize_eq_ok_iff.mpr (parse_codec_eq_ok.mpr ?_)
  exact ⟨[0xf9, 0xbe, 0xb4, 0xd9], [0x76, 0x65, 0x72, 0x73, 0x69, 0x6f, 0x6e, 0, 0, 0, 0, 0],
    tersePayload relay, rfl, rfl, by rw [length_tersePayload]; decide, read,
    (List.append_nil _).symm⟩

/-- An introduction that ends in seven is written with one in its place. With one, it is
written as it was. -/
theorem exists_serialize_frame_terse :
    (∃ written, codec.serialize (ofMessage .bitcoin (.version terse)) = .ok written
        ∧ (Frame.payload written).getLast? = some 1
        ∧ codec.decode.deserialize written = .ok (ofMessage .bitcoin (.version terse)))
      ∧ codec.serialize (ofMessage .bitcoin (.version terse)) = .ok (terseFrame 1) := by
  constructor
  · have read := deserialize_terseFrame (List.mem_cons_of_mem 1 List.mem_cons_self)
    obtain ⟨written, wrote, -, -, settled, readAgain⟩ := exists_serialize_frame read (by decide)
    obtain ⟨relay, last, one⟩ := settled rfl
    rw [payload_terseFrame, tersePayload, List.getLast?_concat] at last
    cases last
    exact ⟨written, wrote, (one (by decide)).1, readAgain⟩
  · have read := deserialize_terseFrame List.mem_cons_self
    obtain ⟨written, wrote, -, same, -⟩ := exists_serialize_frame read (by decide)
    rw [payload_terseFrame, tersePayload, List.getLast?_concat] at same
    rw [wrote, same (.inr (.inr rfl))]

end RawMessage

end PeerWire
