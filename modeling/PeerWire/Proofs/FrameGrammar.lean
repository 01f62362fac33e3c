import PeerWire.Proofs.FrameLaws

/-!
# The grammar of frames

What reading a frame comes to, for any bytes at all. The fields of a frame stand at
fixed places, so that every test is on the bytes themselves: `Frame.verdict` lists
the tests in the order in which they decide, and says nothing about readers or about
decoders inside decoders. Reading a frame agrees with it.

The order matters when several things are wrong. A name is judged before the length
is read, a length before its bytes are there, and a checksum before it is known
whether the name means anything.
-/

set_option autoImplicit false

namespace PeerWire

/-! ## Payloads by command -/

/-- What a command calls for: no payload at all, or one in a codec. -/
inductive Layout where
  | empty (message : NetworkMessage)
  | carries {α : Type} (codec : Codec α) (message : α → NetworkMessage)

/-- The layout of a command. -/
def Command.layout : Command → Layout
  | .version => .carries VersionMessage.codec .version
  | .verack => .empty .verack
  | .addr => .carries NetworkMessage.peersCodec .addr
  | .inv => .carries Inventory.listCodec .inv
  | .getdata => .carries Inventory.listCodec .getdata
  | .notfound => .carries Inventory.listCodec .notfound
  | .getaddr => .empty .getaddr
  | .ping => .carries Codec.u64 .ping
  | .pong => .carries Codec.u64 .pong
  | .sendheaders => .empty .sendheaders
  | .reject => .carries Reject.codec .reject

/-- The message of a payload: all of it must be a value of the codec, and there must
be none where none is called for. -/
def Layout.read : Layout → Bytes → Except Failure NetworkMessage
  | .empty message, payload =>
    if payload = [] then .ok message
    else .error (.consensus (.parseFailed (.unexpectedPayload message.command.name)))
  | .carries codec message, payload => (codec.decode.deserialize payload).map message

theorem NetworkMessage.ofPayload_eq_read (command : Command) (payload : Bytes) :
    ofPayload command payload = command.layout.read payload := by
  cases command <;> rfl

/-! ## NULs in names -/

namespace Command

/-- A NUL stands somewhere in front of another byte. -/
def HasEmbeddedNul (field : Bytes) : Prop :=
  ∃ front back, field = front ++ 0 :: back ∧ ∃ byte ∈ back, byte ≠ 0

/-- Trimmed bytes do not end in NUL. -/
theorem ne_zero_of_trim_eq {field init : Bytes} {last : UInt8}
    (split : trim field = init ++ [last]) : last ≠ 0 := by
  have kept : field.reverse.dropWhile (· = 0) = last :: init.reverse := by
    rw [← List.reverse_inj, List.reverse_cons, List.reverse_reverse]
    exact split
  have front := List.head?_dropWhile_not (fun byte : UInt8 => decide (byte = 0)) field.reverse
  rw [kept] at front
  exact of_decide_eq_false front

/-- What is left of a field holds a NUL exactly if the field has one in front of
another byte: the last byte left is such a byte, and none but NULs are trimmed. -/
theorem mem_trim_iff (field : Bytes) : 0 ∈ trim field ↔ HasEmbeddedNul field := by
  obtain ⟨count, padded⟩ := exists_eq_trim_append field
  have padding : ∀ byte ∈ List.replicate count (0 : UInt8), byte = 0 :=
    fun _ inside => List.eq_of_mem_replicate inside
  constructor
  · intro inside
    obtain ⟨front, back, split⟩ := List.append_of_mem inside
    rcases List.eq_nil_or_concat back with rfl | ⟨init, last, rfl⟩
    · exact absurd rfl (ne_zero_of_trim_eq split)
    · rw [List.concat_eq_append, ← List.cons_append, ← List.append_assoc] at split
      have nonzero := ne_zero_of_trim_eq split
      refine ⟨front, init ++ [last] ++ List.replicate count 0, ?_, last, ?_, nonzero⟩
      · rw [← List.cons_append, ← List.cons_append, ← List.append_assoc, ← List.append_assoc,
          ← split]
        exact padded
      · exact List.mem_append_left _ (List.mem_append_right _ (List.mem_singleton.mpr rfl))
  · rintro ⟨front, back, split, byte, inside, nonzero⟩
    rw [padded] at split
    rcases List.append_eq_append_iff.mp split with ⟨gap, -, zeros⟩ | ⟨gap, left, tail⟩
    · refine absurd (padding byte ?_) nonzero
      rw [zeros]
      exact List.mem_append_right gap (List.mem_cons_of_mem 0 inside)
    · cases gap with
      | nil =>
        refine absurd (padding byte ?_) nonzero
        rw [← List.nil_append (List.replicate count 0), ← tail]
        exact List.mem_cons_of_mem 0 inside
      | cons first others =>
        rw [List.cons_append] at tail
        cases tail
        rw [left]
        exact List.mem_append_right front List.mem_cons_self

instance (field : Bytes) : Decidable (HasEmbeddedNul field) :=
  decidable_of_iff (0 ∈ trim field) (mem_trim_iff field)

/-- The NULs behind a name are ASCII, so a field is if the name is. -/
theorem isAscii_trim (field : Bytes) : (trim field).isAscii = field.isAscii := by
  obtain ⟨count, padded⟩ := exists_eq_trim_append field
  have zeros : (List.replicate count (0 : UInt8)).all (· ≤ 0x7f) = true :=
    List.all_eq_true.mpr fun byte inside => by rw [List.eq_of_mem_replicate inside]; rfl
  conv => rhs; rw [padded]
  rw [Bytes.isAscii, Bytes.isAscii, List.all_append, zeros, Bool.and_true]

/-- The judgement of a name's field, by the field alone. -/
theorem nameOfField_eq (field : Bytes) :
    nameOfField field
      = if HasEmbeddedNul field then .error (.parseFailed .embeddedNul)
        else if field.isAscii = false then .error (.parseFailed .commandNotAscii)
        else .ok ⟨(trim field).map UInt8.toUInt16⟩ := by
  have nul : (trim field).contains 0 = true ↔ HasEmbeddedNul field := by
    rw [List.contains_eq_mem, decide_eq_true_eq]
    exact mem_trim_iff field
  rw [nameOfField, isAscii_trim]
  by_cases embedded : HasEmbeddedNul field
  · rw [if_pos embedded, if_pos (nul.mpr embedded)]
  · rw [if_neg embedded, if_neg (mt nul.mp embedded)]
    cases field.isAscii <;> rfl

end Command

/-! ## Fields -/

namespace Frame

/-- The magic: the first four bytes. -/
def magic (bytes : Bytes) : Number :=
  .int (Bytes.toNat (bytes.take 4))

/-- The field of the command: the next twelve. -/
def commandField (bytes : Bytes) : Bytes :=
  (bytes.drop 4).take 12

/-- The name in the field. -/
def name (bytes : Bytes) : Text :=
  ⟨(Command.trim (commandField bytes)).map UInt8.toUInt16⟩

/-- The length that is claimed of the payload. -/
def claimedLength (bytes : Bytes) : Nat :=
  Bytes.toNat ((bytes.drop 16).take 4)

/-- The checksum that is claimed of the payload. -/
def claimedChecksum (bytes : Bytes) : Bytes :=
  (bytes.drop 20).take 4

/-- The payload, as long as it is claimed to be. -/
def payload (bytes : Bytes) : Bytes :=
  (bytes.drop 24).take (claimedLength bytes)

/-! ## The verdict -/

/-- A consensus error is all there is. -/
def refuse (error : ConsensusError) : Except Failure (Decoded RawMessage) :=
  .error (.consensus error)

/-- Bytes are missing: how many were needed at once, and how many were there. -/
def missing (needed got : Nat) : Except Failure (Decoded RawMessage) :=
  refuse (.io (.exhausted needed got))

/-- What the bytes are as a frame: the first test that fails, in the order of these,
or the message and the size of the frame. -/
def verdict (bytes : Bytes) : Except Failure (Decoded RawMessage) :=
  if bytes.length < 4 then missing 4 bytes.length
  else if bytes.length < 16 then missing 12 (bytes.length - 4)
  else if Command.HasEmbeddedNul (commandField bytes) then refuse (.parseFailed .embeddedNul)
  else if (commandField bytes).isAscii = false then refuse (.parseFailed .commandNotAscii)
  else if bytes.length < 20 then missing 4 (bytes.length - 16)
  else if maxSequenceSize < claimedLength bytes then
    refuse (.oversizedAllocation (claimedLength bytes) (.int maxSequenceSize))
  else if bytes.length < 24 then missing 4 (bytes.length - 20)
  else if bytes.length < 24 + claimedLength bytes then
    missing (claimedLength bytes) (bytes.length - 24)
  else if checksum (payload bytes) ≠ claimedChecksum bytes then
    refuse (.invalidChecksum (checksum (payload bytes)) (claimedChecksum bytes))
  else
    match Command.ofName? (name bytes) with
    | none => refuse (.unrecognizedCommand (name bytes))
    | some command =>
      match command.layout.read (payload bytes) with
      | .error failure => .error failure
      | .ok message => .ok ⟨⟨magic bytes, message⟩, 24 + claimedLength bytes⟩

/-! ## Reading in stages -/

variable {bytes : Bytes}

/-- Bytes held from the start are held from a place on. -/
theorem le_length_drop {place count : Nat} (held : place + count ≤ bytes.length) :
    count ≤ (bytes.drop place).length := by
  rw [List.length_drop]
  omega

theorem length_drop_lt {place count : Nat} (held : place ≤ bytes.length)
    (short : bytes.length < place + count) : (bytes.drop place).length < count := by
  rw [List.length_drop]
  omega

theorem decode_eq :
    RawMessage.codec.decode
      = .take 4 fun magic => .take 12 fun field =>
          (Decoder.ofExcept (Command.nameOfField field)).bind
            (RawMessage.decodeBehindName (.int (ByteOrder.little.read magic))) := rfl

theorem deserializePartial_of_no_magic (short : bytes.length < 4) :
    RawMessage.codec.decode.deserializePartial bytes = missing 4 bytes.length := by
  refine Decoder.deserializePartial_of_error ?_
  rw [decode_eq, Decoder.parse_take_of_lt short]

theorem deserializePartial_of_no_name (held : 4 ≤ bytes.length) (short : bytes.length < 16) :
    RawMessage.codec.decode.deserializePartial bytes = missing 12 (bytes.length - 4) := by
  refine Decoder.deserializePartial_of_error ?_
  rw [decode_eq, Decoder.parse_take_of_le held,
    Decoder.parse_take_of_lt (length_drop_lt held short), List.length_drop]

/-- The name is judged once its field is there. -/
theorem parse_of_header (held : 16 ≤ bytes.length) :
    RawMessage.codec.decode.parse bytes
      = ((Decoder.ofExcept (Command.nameOfField (commandField bytes))).bind
          (RawMessage.decodeBehindName (magic bytes))).parse (bytes.drop 16) := by
  have behind : 12 ≤ (bytes.drop 4).length := le_length_drop held
  rw [decode_eq, Decoder.parse_take_of_le (by omega), Decoder.parse_take_of_le behind,
    List.drop_drop]
  rfl

theorem deserializePartial_of_bad_name {error : ConsensusError} (held : 16 ≤ bytes.length)
    (bad : Command.nameOfField (commandField bytes) = .error error) :
    RawMessage.codec.decode.deserializePartial bytes = refuse error := by
  refine Decoder.deserializePartial_of_error ?_
  rw [parse_of_header held, bad]
  rfl

/-! ## The data behind a good name -/

theorem claimedLength_lt (bytes : Bytes) : claimedLength bytes < 0x100000000 := by
  have bound := Bytes.toNat_lt ((bytes.drop 16).take 4)
  have width : ((bytes.drop 16).take 4).length ≤ 4 := List.length_take_le _ _
  exact Nat.lt_of_lt_of_le bound (Nat.pow_le_pow_right (by decide) width)

/-- The claimed length is judged once its field is there. -/
theorem parse_data (held : 20 ≤ bytes.length) :
    Codec.checkedData.decode.parse (bytes.drop 16)
      = ((Decoder.ofExcept (withinCeiling (claimedLength bytes) 1)).bind fun length =>
          .take 4 fun claimed => .take length fun data =>
            if checksum data = claimed then .done data
            else .reject (.invalidChecksum (checksum data) claimed)).parse (bytes.drop 20) := by
  have behind : 4 ≤ (bytes.drop 16).length := le_length_drop held
  rw [Codec.checkedData, Decoder.parse_take_of_le behind, List.drop_drop,
    Decoder.ofResult_checkAllocation]
  rfl

/-- A claim within the ceiling leaves checksum and payload to be read. -/
theorem parse_data_of_fits (held : 20 ≤ bytes.length)
    (fits : claimedLength bytes ≤ maxSequenceSize) :
    Codec.checkedData.decode.parse (bytes.drop 16)
      = (Decoder.take 4 fun claimed => .take (claimedLength bytes) fun data =>
            if checksum data = claimed then .done data
            else .reject (.invalidChecksum (checksum data) claimed)).parse (bytes.drop 20) := by
  rw [parse_data held, Demand.withinCeiling_eq, Demand.refusal?_of_fits fits]
  rfl

/-- A frame that is all there is read as its payload, if the checksum is right. -/
theorem parse_data_of_whole (held : 24 + claimedLength bytes ≤ bytes.length)
    (fits : claimedLength bytes ≤ maxSequenceSize) :
    Codec.checkedData.decode.parse (bytes.drop 16)
      = if checksum (payload bytes) = claimedChecksum bytes then
          (.ok (payload bytes), bytes.drop (24 + claimedLength bytes))
        else
          (.error (.consensus
              (.invalidChecksum (checksum (payload bytes)) (claimedChecksum bytes))),
            bytes.drop (24 + claimedLength bytes)) := by
  have checksumHeld : 4 ≤ (bytes.drop 20).length := le_length_drop (by omega)
  have payloadHeld : claimedLength bytes ≤ (bytes.drop 24).length := le_length_drop held
  rw [parse_data_of_fits (by omega) fits, Decoder.parse_take_of_le checksumHeld, List.drop_drop,
    Decoder.parse_take_of_le payloadHeld, List.drop_drop]
  change Decoder.parse (if checksum (payload bytes) = claimedChecksum bytes then _ else _) _ = _
  split <;> rfl

section Named

variable {named : Text} (read : Command.nameOfField (commandField bytes) = .ok named)
include read

/-- A failure of the data is the failure of the frame. -/
theorem deserializePartial_of_data_error {failure : Failure} (held : 16 ≤ bytes.length)
    (failed : (Codec.checkedData.decode.parse (bytes.drop 16)).1 = .error failure) :
    RawMessage.codec.decode.deserializePartial bytes = .error failure := by
  refine Decoder.deserializePartial_of_error ?_
  rw [parse_of_header held, read, Decoder.ofExcept, Decoder.bind, RawMessage.decodeBehindName,
    Decoder.parse_bind_of_error failed]

theorem deserializePartial_of_no_length (held : 16 ≤ bytes.length) (short : bytes.length < 20) :
    RawMessage.codec.decode.deserializePartial bytes = missing 4 (bytes.length - 16) := by
  have behind : (bytes.drop 16).length < 4 := length_drop_lt held short
  refine deserializePartial_of_data_error read held ?_
  rw [Codec.checkedData, Decoder.parse_take_of_lt behind, List.length_drop]

/-- A claim beyond the ceiling is refused, whatever follows. -/
theorem deserializePartial_of_large (held : 20 ≤ bytes.length)
    (large : maxSequenceSize < claimedLength bytes) :
    RawMessage.codec.decode.deserializePartial bytes
      = refuse (.oversizedAllocation (claimedLength bytes) (.int maxSequenceSize)) := by
  refine deserializePartial_of_data_error read (by omega) ?_
  rw [parse_data held, Demand.withinCeiling_eq,
    Demand.refusal?_of_bytes (claimedLength_lt bytes) large]
  rfl

theorem deserializePartial_of_no_checksum (held : 20 ≤ bytes.length)
    (fits : claimedLength bytes ≤ maxSequenceSize) (short : bytes.length < 24) :
    RawMessage.codec.decode.deserializePartial bytes = missing 4 (bytes.length - 20) := by
  have behind : (bytes.drop 20).length < 4 := length_drop_lt held short
  refine deserializePartial_of_data_error read (by omega) ?_
  rw [parse_data_of_fits held fits, Decoder.parse_take_of_lt behind, List.length_drop]

theorem deserializePartial_of_cut (held : 24 ≤ bytes.length)
    (fits : claimedLength bytes ≤ maxSequenceSize)
    (short : bytes.length < 24 + claimedLength bytes) :
    RawMessage.codec.decode.deserializePartial bytes
      = missing (claimedLength bytes) (bytes.length - 24) := by
  have checksumHeld : 4 ≤ (bytes.drop 20).length := le_length_drop held
  have behind : (bytes.drop 24).length < claimedLength bytes := length_drop_lt held short
  refine deserializePartial_of_data_error read (by omega) ?_
  rw [parse_data_of_fits (by omega) fits, Decoder.parse_take_of_le checksumHeld, List.drop_drop,
    Decoder.parse_take_of_lt behind, List.length_drop]

theorem deserializePartial_of_wrong_checksum (held : 24 + claimedLength bytes ≤ bytes.length)
    (fits : claimedLength bytes ≤ maxSequenceSize)
    (wrong : checksum (payload bytes) ≠ claimedChecksum bytes) :
    RawMessage.codec.decode.deserializePartial bytes
      = refuse (.invalidChecksum (checksum (payload bytes)) (claimedChecksum bytes)) := by
  refine deserializePartial_of_data_error read (by omega) ?_
  rw [parse_data_of_whole held fits, if_neg wrong]

/-- A whole frame with the right checksum is read as its command and its payload
say. -/
theorem deserializePartial_of_whole (held : 24 + claimedLength bytes ≤ bytes.length)
    (fits : claimedLength bytes ≤ maxSequenceSize)
    (right : checksum (payload bytes) = claimedChecksum bytes) :
    RawMessage.codec.decode.deserializePartial bytes
      = match Command.ofName? named with
        | none => refuse (.unrecognizedCommand named)
        | some command =>
          match command.layout.read (payload bytes) with
          | .error failure => .error failure
          | .ok message => .ok ⟨⟨magic bytes, message⟩, 24 + claimedLength bytes⟩ := by
  have data := parse_data_of_whole held fits
  have size : bytes.length - (bytes.drop (24 + claimedLength bytes)).length
      = 24 + claimedLength bytes := by
    rw [List.length_drop]
    omega
  rw [if_pos right] at data
  rw [Decoder.deserializePartial_eq, parse_of_header (by omega), read, Decoder.ofExcept,
    Decoder.bind, RawMessage.decodeBehindName, Decoder.parse_bind_of_ok data,
    NetworkMessage.decodePayload]
  cases Command.ofName? named with
  | none => rfl
  | some command =>
    dsimp only
    rw [NetworkMessage.ofPayload_eq_read]
    cases command.layout.read (payload bytes) with
    | error failure => rfl
    | ok message =>
      rw [Decoder.ofResult, Decoder.bind, Decoder.parse_done]
      dsimp only
      rw [size]

end Named

/-! ## Agreement -/

/-- Reading a frame comes to its verdict, for any bytes. -/
theorem deserializePartial_eq_verdict (bytes : Bytes) :
    RawMessage.codec.decode.deserializePartial bytes = verdict bytes := by
  rw [verdict]
  by_cases noMagic : bytes.length < 4
  · rw [if_pos noMagic, deserializePartial_of_no_magic noMagic]
  by_cases noName : bytes.length < 16
  · rw [if_neg noMagic, if_pos noName, deserializePartial_of_no_name (by omega) noName]
  have judged := Command.nameOfField_eq (commandField bytes)
  rw [if_neg noMagic, if_neg noName]
  by_cases embedded : Command.HasEmbeddedNul (commandField bytes)
  · rw [if_pos embedded] at judged ⊢
    exact deserializePartial_of_bad_name (by omega) judged
  rw [if_neg embedded] at judged ⊢
  by_cases high : (commandField bytes).isAscii = false
  · rw [if_pos high] at judged ⊢
    exact deserializePartial_of_bad_name (by omega) judged
  rw [if_neg high] at judged ⊢
  by_cases noLength : bytes.length < 20
  · rw [if_pos noLength, deserializePartial_of_no_length judged (by omega) noLength]
  by_cases large : maxSequenceSize < claimedLength bytes
  · rw [if_neg noLength, if_pos large, deserializePartial_of_large judged (by omega) large]
  rw [if_neg noLength, if_neg large]
  by_cases noChecksum : bytes.length < 24
  · rw [if_pos noChecksum,
      deserializePartial_of_no_checksum judged (by omega) (by omega) noChecksum]
  by_cases cut : bytes.length < 24 + claimedLength bytes
  · rw [if_neg noChecksum, if_pos cut, deserializePartial_of_cut judged (by omega) (by omega) cut]
  rw [if_neg noChecksum, if_neg cut]
  by_cases right : checksum (payload bytes) = claimedChecksum bytes
  · rw [if_neg (not_not_intro right)]
    exact deserializePartial_of_whole judged (by omega) (by omega) right
  · rw [if_pos right]
    exact deserializePartial_of_wrong_checksum judged (by omega) (by omega) right

end Frame

end PeerWire
