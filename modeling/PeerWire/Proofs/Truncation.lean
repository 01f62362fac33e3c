import PeerWire.Proofs.FrameGrammar
import PeerWire.Proofs.Locality

/-!
# Frames that end too early

A caller that takes raw messages off a growing byte string would like to read an input
error as a request for more bytes. While the frame is not all there, it is one. A frame
that is all there never leaves its reader short (`Frame.starves_eq_false`), so no other
input error comes from the frame itself.

One comes from inside it. The payload is read as a byte string of its own, and where it
ends before its command's codec has what it asks for, that end is reported in the words
that report the end of the input. Such a frame is whole and in order, its magic, name,
length and checksum included, and the error stays however many bytes are added. These
are all the input errors there are (`RawMessage.incomplete_or_cut_of_io`): a caller
tells the two apart by the length that the frame claims, and by nothing in the error.
-/

set_option autoImplicit false

namespace PeerWire

/-! ## Payloads that end too early -/

/-- Only the reading of a value blames the input; bytes left over are another error. -/
theorem Decoder.deserialize_eq_io_iff {α : Type} {decoder : Decoder α} {bytes : Bytes}
    {problem : IoProblem} :
    decoder.deserialize bytes = .error (.consensus (.io problem))
      ↔ (decoder.parse bytes).1 = .error (.consensus (.io problem)) := by
  rw [← deserializePartial_eq_error_iff, deserialize]
  cases decoder.deserializePartial bytes with
  | error failure => simp
  | ok decoded =>
    dsimp only
    split
    · simp
    · simp

namespace Layout

/-- Whether a payload ends before the codec called for has what it asks for. -/
def starves : Layout → Bytes → Bool
  | .empty _, _ => false
  | .carries codec _, payload => codec.decode.starves payload

/-- The codec called for, if there is one, blames the input only when it starves. -/
def Decisive : Layout → Prop
  | .empty _ => True
  | .carries codec _ => codec.Decisive

theorem exists_read_of_starves {layout : Layout} {payload : Bytes}
    (short : layout.starves payload = true) :
    ∃ problem, layout.read payload = .error (.consensus (.io problem)) := by
  cases layout with
  | empty message => cases short
  | carries codec message =>
    obtain ⟨needed, got, parsed⟩ := Decoder.parse_of_starves short
    have failed := Decoder.deserialize_eq_io_iff.mpr (congrArg Prod.fst parsed)
    exact ⟨.exhausted needed got, by rw [read, failed]; rfl⟩

theorem Decisive.starves_of_io {layout : Layout} (decisive : layout.Decisive) {payload : Bytes}
    {problem : IoProblem} (failed : layout.read payload = .error (.consensus (.io problem))) :
    layout.starves payload = true := by
  cases layout with
  | empty message =>
    rw [read] at failed
    split at failed
    · cases failed
    · cases failed
  | carries codec message =>
    rw [read] at failed
    have alone : codec.decode.deserialize payload = .error (.consensus (.io problem)) := by
      cases outcome : codec.decode.deserialize payload with
      | ok value =>
        rw [outcome] at failed
        cases failed
      | error failure =>
        rw [outcome] at failed
        cases failed
        rfl
    exact decisive.decode.starves_of_io (Decoder.deserialize_eq_io_iff.mp alone)

end Layout

theorem NetworkMessage.decisive_peersCodec : peersCodec.Decisive :=
  ((Codec.decisive_unsigned .little 4).pair Address.decisive_codec).vector

theorem Command.decisive_layout (command : Command) : command.layout.Decisive := by
  cases command with
  | version => exact VersionMessage.decisive_codec
  | addr => exact NetworkMessage.decisive_peersCodec
  | inv => exact Inventory.decisive_listCodec
  | getdata => exact Inventory.decisive_listCodec
  | notfound => exact Inventory.decisive_listCodec
  | ping => exact Codec.decisive_u64
  | pong => exact Codec.decisive_u64
  | reject => exact Reject.decisive_codec
  | verack => trivial
  | getaddr => trivial
  | sendheaders => trivial

/-! ## Frames that are all there -/

namespace Frame

variable {bytes : Bytes}

/-- The data of a frame that is all there are found, whether or not they are good. -/
theorem starves_data (whole : 24 + claimedLength bytes ≤ bytes.length) :
    Codec.checkedData.decode.starves (bytes.drop 16) = false := by
  have lengthHeld : 4 ≤ (bytes.drop 16).length := le_length_drop (by omega)
  have checksumHeld : 4 ≤ (bytes.drop 20).length := le_length_drop (by omega)
  have payloadHeld : claimedLength bytes ≤ (bytes.drop 24).length := le_length_drop whole
  have field : Bytes.toNat ((bytes.drop 16).take 4) = claimedLength bytes := rfl
  rw [Codec.checkedData, Decoder.starves_take_of_le lengthHeld, List.drop_drop, field,
    Decoder.ofResult_checkAllocation, Demand.withinCeiling_eq]
  cases Demand.refusal? [⟨claimedLength bytes, 1⟩] with
  | some error => rfl
  | none =>
    rw [Decoder.ofExcept, Decoder.bind, Decoder.starves_take_of_le checksumHeld, List.drop_drop,
      Decoder.starves_take_of_le payloadHeld]
    dsimp only
    split
    · rfl
    · rfl

/-- A frame that is all there does not leave its reader short of bytes. -/
theorem starves_eq_false (whole : 24 + claimedLength bytes ≤ bytes.length) :
    RawMessage.codec.decode.starves bytes = false := by
  have nameHeld : 12 ≤ (bytes.drop 4).length := le_length_drop (by omega)
  rw [decode_eq, Decoder.starves_take_of_le (by omega), Decoder.starves_take_of_le nameHeld,
    List.drop_drop]
  cases Command.nameOfField ((bytes.drop 4).take 12) with
  | error error => rfl
  | ok named =>
    rw [Decoder.ofExcept, Decoder.bind, RawMessage.decodeBehindName, Decoder.starves_bind]
    -- Behind the data nothing more is asked of the input: the payload is read on its own.
    cases Codec.checkedData.decode.parse (bytes.drop 16) with
    | mk outcome rest =>
      cases outcome with
      | error failure => exact starves_data whole
      | ok data =>
        dsimp only
        cases NetworkMessage.decodePayload named data with
        | error failure => rfl
        | ok message => rfl

/-- A frame of a network that is all there and in order, up to a payload that ends
before its command's codec has what it asks for. -/
structure HoldsCutPayload (network : Network) (bytes : Bytes) : Prop where
  whole : 24 + claimedLength bytes ≤ bytes.length
  own : magic bytes = .int network.magic
  named : Command.nameOfField (commandField bytes) = .ok (name bytes)
  fits : claimedLength bytes ≤ maxSequenceSize
  intact : checksum (payload bytes) = claimedChecksum bytes
  cut : ∃ command, Command.ofName? (name bytes) = some command
    ∧ command.layout.starves (payload bytes) = true

/-- What reading its payload fails with is what a frame with a cut payload fails with. -/
theorem HoldsCutPayload.deserializePartial_eq {network : Network} {command : Command}
    {failure : Failure} (held : HoldsCutPayload network bytes)
    (known : Command.ofName? (name bytes) = some command)
    (failed : command.layout.read (payload bytes) = .error failure) :
    RawMessage.codec.decode.deserializePartial bytes = .error failure := by
  rw [deserializePartial_of_whole held.named held.whole held.fits held.intact, known]
  dsimp only
  rw [failed]

/-- A frame with a cut payload is reported as an ended input. -/
theorem HoldsCutPayload.exists_deserializePartial {network : Network}
    (held : HoldsCutPayload network bytes) :
    ∃ problem, RawMessage.codec.decode.deserializePartial bytes
      = .error (.consensus (.io problem)) := by
  obtain ⟨command, known, short⟩ := held.cut
  obtain ⟨problem, failed⟩ := Layout.exists_read_of_starves short
  exact ⟨problem, held.deserializePartial_eq known failed⟩

/-- If a frame that is all there is reported as an ended input, its payload is cut:
every test in front of the payload fails with an error of another kind. -/
theorem holdsCutPayload_of_io {network : Network} {problem : IoProblem}
    (whole : 24 + claimedLength bytes ≤ bytes.length) (own : magic bytes = .int network.magic)
    (failed : RawMessage.codec.decode.deserializePartial bytes
      = .error (.consensus (.io problem))) : HoldsCutPayload network bytes := by
  have judged := Command.nameOfField_eq (commandField bytes)
  split at judged
  · rw [deserializePartial_of_bad_name (by omega) judged] at failed
    cases failed
  split at judged
  · rw [deserializePartial_of_bad_name (by omega) judged] at failed
    cases failed
  rcases Nat.lt_or_ge maxSequenceSize (claimedLength bytes) with large | fits
  · rw [deserializePartial_of_large judged (by omega) large] at failed
    cases failed
  by_cases intact : checksum (payload bytes) = claimedChecksum bytes
  · rw [deserializePartial_of_whole judged whole fits intact] at failed
    cases known : Command.ofName? (name bytes) with
    | none =>
      rw [name] at known
      rw [known] at failed
      cases failed
    | some command =>
      refine ⟨whole, own, judged, fits, intact, command, known, ?_⟩
      rw [name] at known
      rw [known] at failed
      dsimp only at failed
      split at failed
      · next failure unread =>
        cases failed
        exact command.decisive_layout.starves_of_io unread
      · cases failed
  · rw [deserializePartial_of_wrong_checksum judged whole fits intact] at failed
    cases failed

end Frame

/-! ## Reading for one network -/

namespace RawMessage

variable {network : Network} {bytes : Bytes}

theorem decoderFor_eq (network : Network) :
    decoderFor network
      = .take 4 fun front =>
          if Number.int (ByteOrder.little.read front) = .int network.magic then
            decodeBehind (.int (ByteOrder.little.read front))
          else .reject (.unexpectedNetworkMagic (.int network.magic)
            (.int (ByteOrder.little.read front))) := rfl

/-- Behind its own magic, a network is read as any other. -/
theorem parse_decoderFor_of_own (held : 4 ≤ bytes.length)
    (own : Frame.magic bytes = .int network.magic) :
    (decoderFor network).parse bytes = codec.decode.parse bytes
      ∧ (decoderFor network).starves bytes = codec.decode.starves bytes := by
  have same : Number.int (ByteOrder.little.read (bytes.take 4)) = .int network.magic := own
  have decode : codec.decode
      = .take 4 fun front => decodeBehind (.int (ByteOrder.little.read front)) := rfl
  rw [decoderFor_eq, decode, Decoder.parse_take_of_le held, Decoder.parse_take_of_le held,
    Decoder.starves_take_of_le held, Decoder.starves_take_of_le held, if_pos same]
  exact ⟨rfl, rfl⟩

/-- Behind another magic, nothing is read. -/
theorem parse_decoderFor_of_other (held : 4 ≤ bytes.length)
    (other : Frame.magic bytes ≠ .int network.magic) :
    (decoderFor network).parse bytes
      = (.error (.consensus (.unexpectedNetworkMagic (.int network.magic) (Frame.magic bytes))),
          bytes.drop 4) := by
  have differ : Number.int (ByteOrder.little.read (bytes.take 4)) ≠ .int network.magic := other
  rw [decoderFor_eq, Decoder.parse_take_of_le held, if_neg differ]
  rfl

/-- An input error means that the frame is not all there, or that it is and holds a cut
payload; and a frame that holds one is reported as an ended input whatever follows it. -/
theorem incomplete_or_cut_of_io (network : Network) (bytes : Bytes) :
    (∀ problem, read network bytes = .error (.consensus (.io problem)) →
        bytes.length < 24 ∨ bytes.length < 24 + Frame.claimedLength bytes
          ∨ Frame.HoldsCutPayload network bytes)
      ∧ (Frame.HoldsCutPayload network bytes → ∃ problem, ∀ suffix,
          read network (bytes ++ suffix) = .error (.consensus (.io problem))) := by
  constructor
  · intro problem failed
    rcases Nat.lt_or_ge bytes.length (24 + Frame.claimedLength bytes) with short | whole
    · exact .inr (.inl short)
    refine .inr (.inr ?_)
    have parsed := Decoder.deserializePartial_eq_error_iff.mp failed
    by_cases own : Frame.magic bytes = .int network.magic
    · rw [(parse_decoderFor_of_own (by omega) own).1] at parsed
      exact Frame.holdsCutPayload_of_io whole own
        (Decoder.deserializePartial_eq_error_iff.mpr parsed)
    · rw [parse_decoderFor_of_other (by omega) own] at parsed
      cases parsed
  · intro held
    have whole := held.whole
    obtain ⟨problem, failed⟩ := held.exists_deserializePartial
    obtain ⟨parses, starves⟩ := parse_decoderFor_of_own (by omega) held.own
    rw [Frame.starves_eq_false whole] at starves
    rw [Decoder.deserializePartial_eq_error_iff, ← parses] at failed
    refine ⟨problem, fun suffix => ?_⟩
    rw [read, Decoder.deserializePartial_eq_error_iff, Decoder.parse_append starves]
    exact failed

/-- A ping without its number. The frame is all there, and its payload is empty. -/
def emptyPing : Bytes :=
  [0xf9, 0xbe, 0xb4, 0xd9, 0x70, 0x69, 0x6e, 0x67, 0, 0, 0, 0, 0, 0, 0, 0,
    0, 0, 0, 0, 0x5d, 0xf6, 0xe0, 0xe2]

theorem checksum_nil : checksum [] = [0x5d, 0xf6, 0xe0, 0xe2] := by
  decide +kernel

theorem holdsCutPayload_emptyPing : Frame.HoldsCutPayload .bitcoin emptyPing where
  whole := by decide
  own := by decide
  named := rfl
  fits := by decide
  intact := checksum_nil
  cut := ⟨.ping, by decide, by decide⟩

/-- The ping without its number is reported as an ended input, whatever is added to it.
Cut short, it is reported so for want of bytes. -/
theorem incomplete_or_cut_of_io_emptyPing :
    (∃ problem, ∀ suffix, read .bitcoin (emptyPing ++ suffix) = .error (.consensus (.io problem)))
      ∧ ((emptyPing.take 23).length < 24
        ∨ (emptyPing.take 23).length < 24 + Frame.claimedLength (emptyPing.take 23)
        ∨ Frame.HoldsCutPayload .bitcoin (emptyPing.take 23)) := by
  constructor
  · exact (incomplete_or_cut_of_io .bitcoin emptyPing).2 holdsCutPayload_emptyPing
  · refine (incomplete_or_cut_of_io .bitcoin (emptyPing.take 23)).1 (.exhausted 4 3) ?_
    rw [read, Decoder.deserializePartial_eq_error_iff]
    rfl

/-- Not every input error means that bytes of the frame are missing. -/
theorem read_emptyPing :
    read .bitcoin emptyPing = .error (.consensus (.io (.exhausted 8 0)))
      ∧ ¬ (emptyPing.length < 24
        ∨ emptyPing.length < 24 + Frame.claimedLength emptyPing) := by
  constructor
  · have held := holdsCutPayload_emptyPing
    have known : Command.ofName? (Frame.name emptyPing) = some .ping := by decide
    have alone : Codec.u64.decode.deserialize [] = .error (.consensus (.io (.exhausted 8 0))) :=
      Decoder.deserialize_eq_io_iff.mpr rfl
    have unread : Command.ping.layout.read (Frame.payload emptyPing)
        = .error (.consensus (.io (.exhausted 8 0))) :=
      congrArg (Except.map NetworkMessage.ping) alone
    have parsed :=
      Decoder.deserializePartial_eq_error_iff.mp (held.deserializePartial_eq known unread)
    rw [← (parse_decoderFor_of_own (by decide) held.own).1] at parsed
    exact Decoder.deserializePartial_eq_error_iff.mpr parsed
  · decide

end RawMessage

end PeerWire
