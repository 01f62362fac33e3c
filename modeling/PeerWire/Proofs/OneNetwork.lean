import PeerWire.Proofs.Streams

/-!
# Reading for one network

Raw messages are read for any network, or for one. The two decoders take the same four
bytes first, and over any source the second is the first behind a test of these bytes
(`run_decoderFor`): messages for its own network it reads as the general decoder does,
to the same value or failure and with the same reader left, and of anything else it takes
the magic and no more.

A magic stands for one network, so no bytes are read for two. What the general decoder
reads bears the magic that the bytes start with (`magic_of_deserializePartial`); hence
the messages read for a network are the messages of any network with its magic.
-/

set_option autoImplicit false

namespace PeerWire

theorem Network.magic_injective : Function.Injective Network.magic := by
  intro first second same
  cases first <;> cases second <;> first | rfl | cases same

namespace RawMessage

theorem codec_decode_eq :
    codec.decode
      = .take 4 fun front => decodeBehind (.int (ByteOrder.little.read front)) := rfl

/-- Over any source, the decoder of a network goes on as the general decoder does behind
its own magic, and nowhere else. -/
theorem run_decoderFor {σ : Type} [ByteSource σ] (network : Network) (reader : Reader σ) :
    (decoderFor network).run reader
      = match reader.readBytes 4 with
        | (.error error, after) => (.error (.consensus error), after)
        | (.ok front, after) =>
          if Number.int (Bytes.toNat front) = .int network.magic then codec.decode.run reader
          else
            (.error (.consensus (.unexpectedNetworkMagic (.int network.magic)
              (.int (Bytes.toNat front)))), after) := by
  rw [decoderFor_eq, codec_decode_eq, Decoder.run, Decoder.run]
  generalize reader.readBytes 4 = taken
  obtain ⟨outcome, after⟩ := taken
  cases outcome with
  | error error => rfl
  | ok front =>
    dsimp only
    have number : Number.int (ByteOrder.little.read front) = .int (Bytes.toNat front) := rfl
    rw [number]
    split
    · rfl
    · rfl

section Bytes

variable {network : Network} {bytes : Bytes}

/-- Without a magic there is no message. -/
theorem runOver_decoderFor_of_lt (short : bytes.length < 4) :
    (decoderFor network).runOver bytes
      = (.error (.consensus (.io (.exhausted 4 bytes.length))),
          (Reader.ofSource (Cursor.ofBytes bytes)).skip bytes.length) := by
  rw [Decoder.runOver, run_decoderFor, Reader.readBytes_of_lt (Reader.backed_ofSource _) short]
  rfl

/-- Of a message for another network the magic is taken. -/
theorem runOver_decoderFor_of_other (held : 4 ≤ bytes.length)
    (other : Frame.magic bytes ≠ .int network.magic) :
    (decoderFor network).runOver bytes
      = (.error (.consensus (.unexpectedNetworkMagic (.int network.magic) (Frame.magic bytes))),
          (Reader.ofSource (Cursor.ofBytes bytes)).skip 4) := by
  rw [Decoder.runOver, run_decoderFor, Reader.readBytes_of_le (Reader.backed_ofSource _) held]
  exact if_neg other

/-- A message for the network itself is read as for any. -/
theorem runOver_decoderFor_of_own (held : 4 ≤ bytes.length)
    (own : Frame.magic bytes = .int network.magic) :
    (decoderFor network).runOver bytes = codec.decode.runOver bytes := by
  rw [Decoder.runOver, run_decoderFor, Reader.readBytes_of_le (Reader.backed_ofSource _) held]
  exact if_pos own

/-- A message bears the magic that its bytes start with. -/
theorem magic_of_deserializePartial {decoded : Decoded RawMessage}
    (found : codec.decode.deserializePartial bytes = .ok decoded) :
    4 ≤ bytes.length ∧ decoded.value.magic = Frame.magic bytes := by
  obtain ⟨raw, consumed⟩ := decoded
  obtain ⟨-, parsed⟩ := Decoder.parse_of_deserializePartial found
  rw [codec_decode_eq] at parsed
  obtain ⟨front, behind, rfl, size, parsedBehind⟩ := Decoder.parse_take_eq_ok parsed
  obtain ⟨name, behindName, -, parsedFramed⟩ := Decoder.parse_bind_eq_ok parsedBehind
  obtain ⟨data, behindData, -, parsedPayload⟩ := Decoder.parse_bind_eq_ok parsedFramed
  obtain ⟨message, left, -, last⟩ := Decoder.parse_bind_eq_ok parsedPayload
  cases last
  constructor
  · rw [List.length_append, size]
    exact Nat.le_add_right _ _
  · rw [Frame.magic, List.take_left' size]
    rfl

/-- The messages read for a network are the messages of any network with its magic. -/
theorem read_eq_ok_iff {decoded : Decoded RawMessage} :
    read network bytes = .ok decoded
      ↔ codec.decode.deserializePartial bytes = .ok decoded
        ∧ decoded.value.magic = .int network.magic := by
  constructor
  · intro found
    obtain ⟨header, within⟩ := consumed_of_read found
    have held : 4 ≤ bytes.length := by omega
    by_cases own : Frame.magic bytes = .int network.magic
    · have same := runOver_decoderFor_of_own held own
      rw [read, Decoder.deserializePartial_eq_runOver, same,
        ← Decoder.deserializePartial_eq_runOver] at found
      obtain ⟨-, bears⟩ := magic_of_deserializePartial found
      exact ⟨found, bears.trans own⟩
    · have refused := runOver_decoderFor_of_other held own
      rw [read, Decoder.deserializePartial_eq_runOver, refused] at found
      cases found
  · rintro ⟨found, marked⟩
    obtain ⟨held, bears⟩ := magic_of_deserializePartial found
    have same := runOver_decoderFor_of_own held (bears.symm.trans marked)
    rw [read, Decoder.deserializePartial_eq_runOver, same, ← Decoder.deserializePartial_eq_runOver]
    exact found

end Bytes

/-- Over any byte string, the decoder of a network fails for want of a magic, or refuses
the magic of another network having taken nothing else, or does as the general decoder
does. Hence no byte string is read for two networks, and what is read for one is what
the general decoder reads with its magic, from the front or as a whole. -/
theorem decoderFor_filters (bytes : Bytes) :
    (∀ network : Network,
        (bytes.length < 4 →
          ((decoderFor network).runOver bytes).1
            = .error (.consensus (.io (.exhausted 4 bytes.length))))
        ∧ (4 ≤ bytes.length → Frame.magic bytes ≠ .int network.magic →
          ((decoderFor network).runOver bytes).1
              = .error (.consensus
                  (.unexpectedNetworkMagic (.int network.magic) (Frame.magic bytes)))
            ∧ ((decoderFor network).runOver bytes).2.consumed = 4)
        ∧ (4 ≤ bytes.length → Frame.magic bytes = .int network.magic →
          (decoderFor network).runOver bytes = codec.decode.runOver bytes))
      ∧ (∀ (first second : Network) (one other : Decoded RawMessage),
          read first bytes = .ok one → read second bytes = .ok other → first = second)
      ∧ ∀ network : Network,
        (∀ decoded, read network bytes = .ok decoded
          ↔ codec.decode.deserializePartial bytes = .ok decoded
            ∧ decoded.value.magic = .int network.magic)
        ∧ ∀ raw, (decoderFor network).deserialize bytes = .ok raw
          ↔ codec.decode.deserialize bytes = .ok raw ∧ raw.magic = .int network.magic := by
  refine ⟨fun network => ⟨?_, ?_, ?_⟩, ?_, fun network => ⟨fun decoded => read_eq_ok_iff, ?_⟩⟩
  · intro short
    rw [runOver_decoderFor_of_lt short]
  · intro held other
    rw [runOver_decoderFor_of_other held other]
    exact ⟨rfl, rfl⟩
  · exact runOver_decoderFor_of_own
  · intro first second one other readFirst readSecond
    obtain ⟨found, ofFirst⟩ := read_eq_ok_iff.mp readFirst
    obtain ⟨again, ofSecond⟩ := read_eq_ok_iff.mp readSecond
    rw [found] at again
    cases again
    have same : first.magic = second.magic := by
      have numbers := ofFirst.symm.trans ofSecond
      injection numbers with value
      exact Int.ofNat.inj value
    exact Network.magic_injective same
  · intro raw
    rw [Decoder.deserialize_eq_ok_iff_partial, Decoder.deserialize_eq_ok_iff_partial]
    exact read_eq_ok_iff

/-- A verack of the main network is read there and on no other network. A ping without its
number fails on the test network for its magic, with four bytes taken, and on its own as
it does for any. -/
theorem decoderFor_filters_verack :
    (∃ frame, read .bitcoin frame = .ok ⟨ofMessage .bitcoin .verack, 24⟩
        ∧ codec.decode.deserializePartial frame = .ok ⟨ofMessage .bitcoin .verack, 24⟩
        ∧ ∀ network decoded, read network frame = .ok decoded → network = .bitcoin)
      ∧ ((decoderFor .testnet).runOver emptyPing).1
          = .error (.consensus
              (.unexpectedNetworkMagic (.int 0x0709110b) (.int 0xd9b4bef9)))
      ∧ ((decoderFor .testnet).runOver emptyPing).2.consumed = 4
      ∧ (decoderFor .bitcoin).runOver emptyPing = codec.decode.runOver emptyPing := by
  constructor
  · have empty : NetworkMessage.verack.encodePayload = .ok [] := rfl
    obtain ⟨frame, written⟩ := exists_serialize_ofMessage .bitcoin empty (by decide)
    have framed : IsFrame .bitcoin (ofMessage .bitcoin .verack) frame := by
      refine ⟨rfl, written, ?_⟩
      intro payload wrote
      cases wrote
      decide
    have size : frame.length = 24 := length_serialize written empty
    have found := framed.read_append []
    rw [List.append_nil, size] at found
    obtain ⟨-, alone, filters⟩ := decoderFor_filters frame
    exact ⟨frame, found, (((filters .bitcoin).1 _).mp found).1,
      fun network decoded again => alone network .bitcoin decoded _ again found⟩
  · obtain ⟨cases, -, -⟩ := decoderFor_filters emptyPing
    obtain ⟨refused, taken⟩ := (cases .testnet).2.1 (by decide) (by decide)
    exact ⟨refused, taken, (cases .bitcoin).2.2 (by decide) (by decide)⟩

end RawMessage

end PeerWire
