import PeerWire.Proofs.Normalisation
import PeerWire.Proofs.Truncation

/-!
# Streams of frames

A stream is read frame by frame: each message that is read says how many bytes it took,
and reading goes on behind them. No message takes less than a header or more than there
is (`consumed_of_read`), so each step leaves less to read, and reading ends: with nothing
left, or in front of bytes that are not read as a message. `readStream_induction` is
induction along these steps.

A frame that was written for a message is read as that message, takes its own length and
leaves what follows alone (`IsFrame.read_append`). Hence frames put one behind the other
are read back in order, and what follows them is read as if it stood alone.
-/

set_option autoImplicit false

namespace PeerWire

namespace RawMessage

variable {network : Network} {bytes : Bytes}

/-! ## One message -/

/-- What is written for a message of the network whose payload is within the ceiling. -/
structure IsFrame (network : Network) (raw : RawMessage) (frame : Bytes) : Prop where
  own : raw.magic = .int network.magic
  written : codec.serialize raw = .ok frame
  fits : ∀ payload, raw.payload.encodePayload = .ok payload → payload.length ≤ maxSequenceSize

/-- The frame of a message starts with the magic of its network. -/
theorem IsFrame.magic_append {raw : RawMessage} {frame : Bytes} (framed : IsFrame network raw frame)
    (suffix : Bytes) :
    4 ≤ (frame ++ suffix).length ∧ Frame.magic (frame ++ suffix) = .int network.magic := by
  obtain ⟨magic, name, payload, field, wroteMagic, -, -, -, rfl⟩ :=
    serialize_codec_eq_ok.mp framed.written
  have size : magic.length = 4 := Codec.spans_unsigned .little 4 _ _ wroteMagic
  have front : (magic ++ (name ++ field) ++ suffix).take 4 = magic := by
    rw [List.append_assoc, List.take_left' size]
  refine ⟨?_, ?_⟩
  · rw [List.append_assoc, List.length_append, size]
    exact Nat.le_add_right _ _
  · have readMagic : Codec.u32.decode.parse (magic ++ []) = (.ok raw.magic, []) :=
      (Codec.restores_unsigned .little 4).restored wroteMagic rfl []
    have decoded : Codec.u32.decode.parse (magic ++ [])
        = (.ok (.int (ByteOrder.little.read magic)), []) := Decoder.parse_take_append size _ []
    rw [decoded, framed.own] at readMagic
    rw [Frame.magic, front]
    exact Except.ok.inj (congrArg Prod.fst readMagic)

/-- A frame is read as the message that it was written for, whatever follows it. -/
theorem IsFrame.read_append {raw : RawMessage} {frame : Bytes} (framed : IsFrame network raw frame)
    (suffix : Bytes) : read network (frame ++ suffix) = .ok ⟨raw, frame.length⟩ := by
  have allowed : Demand.refusal? raw.demands = none := by
    obtain ⟨-, -, payload, -, -, -, wrotePayload, -, -⟩ := serialize_codec_eq_ok.mp framed.written
    rw [demands_eq wrotePayload, Demand.refusal?, Demand.room_bytes,
      if_pos (framed.fits payload wrotePayload), Demand.refusal?]
  have restored := restores_codec.restored framed.written allowed suffix
  obtain ⟨held, own⟩ := framed.magic_append suffix
  rw [← (parse_decoderFor_of_own held own).1] at restored
  exact Decoder.deserializePartial_append restored

/-- What is read takes at least a header, and no more than there is. -/
theorem consumed_of_read {decoded : Decoded RawMessage} (found : read network bytes = .ok decoded) :
    24 ≤ decoded.consumed ∧ decoded.consumed ≤ bytes.length := by
  obtain ⟨raw, consumed⟩ := decoded
  obtain ⟨within, parsed⟩ := Decoder.parse_of_deserializePartial found
  refine ⟨?_, within⟩
  have held : 4 ≤ bytes.length := by
    rw [decoderFor_eq] at parsed
    obtain ⟨front, suffix, rfl, size, -⟩ := Decoder.parse_take_eq_ok parsed
    rw [List.length_append, size]
    exact Nat.le_add_right _ _
  by_cases own : Frame.magic bytes = .int network.magic
  · rw [(parse_decoderFor_of_own held own).1] at parsed
    obtain ⟨magic, name, payload, wroteMagic, wroteName, -, -, split⟩ := parse_codec_eq_ok.mp parsed
    have length := congrArg List.length split
    rw [List.length_append, Frame.length_assemble (length_front wroteMagic wroteName),
      List.length_drop] at length
    change 24 ≤ consumed
    omega
  · rw [parse_decoderFor_of_other held own] at parsed
    cases parsed

/-! ## One step of the loop -/

/-- Reading that fails ends the stream. -/
theorem readBehind_of_error {failure : Failure} (earlier : List (Decoded RawMessage))
    (some : bytes ≠ []) (failed : read network bytes = .error failure) :
    readBehind network earlier bytes = ⟨earlier.reverse, .some failure, bytes⟩ := by
  cases bytes with
  | nil => exact absurd rfl some
  | cons byte more => rw [readBehind, failed]

/-- Behind a message that was read, the stream goes on. -/
theorem readBehind_of_ok {decoded : Decoded RawMessage} (earlier : List (Decoded RawMessage))
    (found : read network bytes = .ok decoded) :
    readBehind network earlier bytes
      = readBehind network (decoded :: earlier) (bytes.drop decoded.consumed) := by
  obtain ⟨header, within⟩ := consumed_of_read found
  obtain ⟨taken, size⟩ : ∃ taken, decoded.consumed = taken + 1 := ⟨decoded.consumed - 1, by omega⟩
  cases bytes with
  | nil =>
    rw [List.length_nil] at within
    omega
  | cons byte more =>
    rw [readBehind, found]
    dsimp only
    rw [size]
    rfl

/-- Every byte string is empty, or is not read as a message, or is read as one and has
less behind it. -/
theorem readStream_induction (network : Network) {motive : Bytes → Prop} (empty : motive [])
    (failed : ∀ bytes failure, bytes ≠ [] → read network bytes = .error failure → motive bytes)
    (step : ∀ bytes decoded, read network bytes = .ok decoded →
      motive (bytes.drop decoded.consumed) → motive bytes) (bytes : Bytes) : motive bytes := by
  induction size : bytes.length using Nat.strongRecOn generalizing bytes with
  | ind length ih =>
    by_cases nothing : bytes = []
    · rw [nothing]
      exact empty
    cases outcome : read network bytes with
    | error failure => exact failed bytes failure nothing outcome
    | ok decoded =>
      obtain ⟨header, within⟩ := consumed_of_read outcome
      refine step bytes decoded outcome (ih (bytes.drop decoded.consumed).length ?_ _ rfl)
      rw [List.length_drop]
      omega

/-! ## The whole stream -/

/-- The bytes that the messages of a stream took. -/
def Stream.consumed (stream : Stream) : Nat :=
  stream.messages.foldr (fun decoded total => decoded.consumed + total) 0

/-- A stream with messages in front of it. -/
def Stream.behind (earlier : List (Decoded RawMessage)) (stream : Stream) : Stream :=
  { stream with messages := earlier ++ stream.messages }

/-- What was read before stands in front, and has no other part in what follows. -/
theorem readBehind_eq (earlier : List (Decoded RawMessage)) (bytes : Bytes) :
    readBehind network earlier bytes = (readStream network bytes).behind earlier.reverse := by
  induction bytes using readStream_induction network generalizing earlier with
  | empty => simp only [readStream, readBehind, Stream.behind, List.reverse_nil, List.append_nil]
  | failed bytes failure some outcome =>
    rw [readStream, readBehind_of_error earlier some outcome, readBehind_of_error [] some outcome]
    simp only [Stream.behind, List.reverse_nil, List.append_nil]
  | step bytes decoded outcome ih =>
    rw [readStream, readBehind_of_ok earlier outcome, readBehind_of_ok [] outcome,
      ih (decoded :: earlier), ih [decoded]]
    simp only [Stream.behind, List.reverse_cons, List.reverse_nil, List.nil_append,
      List.append_assoc]

theorem readStream_nil (network : Network) : readStream network [] = ⟨[], none, []⟩ := by
  rw [readStream, readBehind, List.reverse_nil]

theorem readStream_of_error {failure : Failure} (some : bytes ≠ [])
    (failed : read network bytes = .error failure) :
    readStream network bytes = ⟨[], .some failure, bytes⟩ :=
  readBehind_of_error [] some failed

theorem readStream_of_ok {decoded : Decoded RawMessage}
    (found : read network bytes = .ok decoded) :
    readStream network bytes
      = (readStream network (bytes.drop decoded.consumed)).behind [decoded] := by
  rw [readStream, readBehind_of_ok [] found, readBehind_eq]
  rfl

/-- A frame in front of a stream is read as one more message in front. -/
theorem IsFrame.readStream_append {raw : RawMessage} {frame : Bytes}
    (framed : IsFrame network raw frame) (suffix : Bytes) :
    readStream network (frame ++ suffix)
      = (readStream network suffix).behind [⟨raw, frame.length⟩] := by
  rw [readStream_of_ok (framed.read_append suffix), List.drop_left]

/-- The bytes counted and the bytes left are all the bytes there were. -/
theorem consumed_add_rest (network : Network) (bytes : Bytes) :
    (readStream network bytes).consumed + (readStream network bytes).rest.length
      = bytes.length := by
  induction bytes using readStream_induction network with
  | empty =>
    rw [readStream_nil]
    rfl
  | failed bytes failure some outcome =>
    rw [readStream_of_error some outcome]
    exact Nat.zero_add _
  | step bytes decoded outcome ih =>
    obtain ⟨-, within⟩ := consumed_of_read outcome
    rw [List.length_drop] at ih
    simp only [Stream.consumed, readStream_of_ok outcome, Stream.behind, List.foldr_append,
      List.foldr_cons, List.foldr_nil] at ih ⊢
    omega

/-- Every message of a stream takes at least a header. -/
theorem le_consumed_of_mem (network : Network) (bytes : Bytes) :
    ∀ decoded ∈ (readStream network bytes).messages, 24 ≤ decoded.consumed := by
  induction bytes using readStream_induction network with
  | empty => simp only [readStream_nil, List.not_mem_nil, false_implies, implies_true]
  | failed bytes failure some outcome =>
    simp only [readStream_of_error some outcome, List.not_mem_nil, false_implies, implies_true]
  | step bytes decoded outcome ih =>
    intro other inside
    rw [readStream_of_ok outcome] at inside
    rcases List.mem_cons.mp inside with rfl | behind
    · exact (consumed_of_read outcome).1
    · exact ih other behind

/-- Frames one behind the other are read back as their messages, each taking its own
length, and behind them whatever follows is read as if it stood alone. On any bytes at
all a message that is read takes a header at least and at most what is there, the stream
goes on right behind it, and in the end the bytes counted and the bytes left add up. -/
theorem readStream_frames_append (network : Network) :
    (∀ (frames : List (RawMessage × Bytes)) (tail : Bytes),
        (∀ framed ∈ frames, IsFrame network framed.1 framed.2) →
        readStream network ((frames.map Prod.snd).flatten ++ tail)
          = (readStream network tail).behind
              (frames.map fun framed => ⟨framed.1, framed.2.length⟩))
      ∧ ∀ bytes : Bytes,
        (∀ decoded, read network bytes = .ok decoded →
            24 ≤ decoded.consumed ∧ decoded.consumed ≤ bytes.length
            ∧ readStream network bytes
              = (readStream network (bytes.drop decoded.consumed)).behind [decoded])
        ∧ (∀ failure, bytes ≠ [] → read network bytes = .error failure →
            readStream network bytes = ⟨[], some failure, bytes⟩)
        ∧ (∀ decoded ∈ (readStream network bytes).messages, 24 ≤ decoded.consumed)
        ∧ (readStream network bytes).consumed + (readStream network bytes).rest.length
            = bytes.length := by
  constructor
  · intro frames tail framed
    induction frames with
    | nil => rfl
    | cons first rest ih =>
      have behind := ih fun other inside => framed other (List.mem_cons_of_mem first inside)
      rw [List.map_cons, List.flatten_cons, List.append_assoc,
        (framed first List.mem_cons_self).readStream_append, behind]
      rfl
  · intro bytes
    refine ⟨?_, ?_, le_consumed_of_mem network bytes, consumed_add_rest network bytes⟩
    · intro decoded found
      obtain ⟨header, within⟩ := consumed_of_read found
      exact ⟨header, within, readStream_of_ok found⟩
    · intro failure some failed
      exact readStream_of_error some failed

/-- Two pings and one byte more: both are read, and the byte is left. -/
theorem readStream_frames_append_pings :
    ∃ first second,
      IsFrame .bitcoin (ofMessage .bitcoin (.ping 1)) first
      ∧ IsFrame .bitcoin (ofMessage .bitcoin (.ping 2)) second
      ∧ readStream .bitcoin (first ++ (second ++ [0xff]))
        = ⟨[⟨ofMessage .bitcoin (.ping 1), 32⟩, ⟨ofMessage .bitcoin (.ping 2), 32⟩],
            some (.consensus (.io (.exhausted 4 1))), [0xff]⟩ := by
  have isFrame : ∀ nonce payload, (NetworkMessage.ping nonce).encodePayload = .ok payload →
      payload.length = 8 → ∃ frame, IsFrame .bitcoin (ofMessage .bitcoin (.ping nonce)) frame
        ∧ frame.length = 32 := by
    intro nonce payload wrote size
    have field : payload.length < 0x100000000 := by
      rw [size]
      decide
    obtain ⟨frame, written⟩ := exists_serialize_ofMessage .bitcoin wrote field
    refine ⟨frame, ⟨rfl, written, ?_⟩, ?_⟩
    · intro again wroteAgain
      cases wrote.symm.trans wroteAgain
      rw [size]
      decide
    · rw [length_serialize written wrote, size]
      rfl
  obtain ⟨first, one, firstSize⟩ := isFrame 1 [1, 0, 0, 0, 0, 0, 0, 0] rfl rfl
  obtain ⟨second, two, secondSize⟩ := isFrame 2 [2, 0, 0, 0, 0, 0, 0, 0] rfl rfl
  obtain ⟨inOrder, alone⟩ := readStream_frames_append .bitcoin
  have short : read .bitcoin [0xff] = .error (.consensus (.io (.exhausted 4 1))) :=
    Decoder.deserializePartial_eq_error_iff.mpr rfl
  have left := (alone [0xff]).2.1 _ (by decide) short
  have framed : ∀ framed ∈ [(ofMessage .bitcoin (.ping 1), first),
      (ofMessage .bitcoin (.ping 2), second)], IsFrame .bitcoin framed.1 framed.2 := by
    intro framed inside
    rcases List.mem_cons.mp inside with rfl | behind
    · exact one
    · cases List.mem_singleton.mp behind
      exact two
  have stream := inOrder _ [0xff] framed
  refine ⟨first, second, one, two, ?_⟩
  rw [left] at stream
  simp only [List.map_cons, List.map_nil, List.flatten_cons, List.flatten_nil, List.append_nil,
    List.append_assoc, firstSize, secondSize] at stream
  exact stream

end RawMessage

end PeerWire
