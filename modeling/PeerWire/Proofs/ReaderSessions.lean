import PeerWire.Proofs.Widths
import PeerWire.Session

/-!
# Sessions with a reader

Over a cursor, what a step comes to and how many bytes it takes are functions of the bytes
ahead (`ReadStep.perform_eq`). So a step does not see what was read before it, nor whether
that succeeded, and the offset keeps pace with the count.

Some steps take the same number of bytes whatever these are, and fail for want of them only:
numbers of fixed width, byte strings, and the formats that are put together from such
(`Decoder.Exactly`). When such a step fails it has taken all there was.
-/

set_option autoImplicit false

namespace PeerWire

/-! ## Steps -/

/-- What a decoder makes of the bytes ahead, and how many of them it takes. -/
def Decoder.reading {α : Type} (decoder : Decoder α) (ahead : Bytes) : Except Failure α × Nat :=
  ((decoder.parse ahead).1, ahead.length - (decoder.parse ahead).2.length)

namespace ReadStep

/-- What a step makes of the bytes ahead, and how many of them it takes. -/
def reading : (step : ReadStep) → Bytes → step.Answer × Nat
  | primitive kind, ahead => kind.format.codec.decode.reading ahead
  | bytes count, ahead => (Decoder.bytes count).reading ahead
  | slice target, ahead =>
    if target.length ≤ ahead.length then ((.ok (), ahead.take target.length), target.length)
    else
      ((.error (.io (.exhausted target.length ahead.length)), ahead ++ target.drop ahead.length),
        ahead.length)
  | varInt, ahead => VarInt.decode.reading ahead
  | decode format, ahead => format.codec.decode.reading ahead
  | message network, ahead => (RawMessage.decoderFor network).reading ahead

end ReadStep

/-- A decoder of fixed width fails only for want of bytes, and then takes all there are. -/
theorem Decoder.Exactly.reading {α : Type} {decoder : Decoder α} {width : Nat}
    (exact : decoder.Exactly width) (ahead : Bytes) :
    ((∃ failure, (decoder.reading ahead).1 = .error failure) ↔ ahead.length < width)
      ∧ (decoder.reading ahead).2 = min width ahead.length := by
  obtain ⟨found, starved⟩ := exact.parse ahead
  rw [Decoder.reading]
  rcases Nat.lt_or_ge ahead.length width with short | enough
  · obtain ⟨needed, got, parsed⟩ := Decoder.parse_of_starves (starved short)
    rw [parsed]
    refine ⟨iff_of_true ⟨_, rfl⟩ short, ?_⟩
    rw [List.length_nil, Nat.sub_zero, Nat.min_eq_right (Nat.le_of_lt short)]
  · obtain ⟨value, parsed⟩ := found enough
    rw [parsed]
    refine ⟨iff_of_false ?_ (Nat.not_lt.mpr enough), ?_⟩
    · rintro ⟨failure, failed⟩
      cases failed
    · rw [List.length_drop, Nat.min_eq_left enough]
      omega

namespace ReadStep

end ReadStep

/-! ## Sessions -/

/-- A reader over a buffer from a position on: the buffer is as it was, and the offset is
within it and as far behind the position as bytes were counted. -/
structure Reader.At (buffer : Bytes) (position : Nat) (reader : Reader Cursor) : Prop where
  unchanged : reader.source.buffer = buffer
  offset : reader.source.offset = position + reader.consumed
  within : reader.source.offset ≤ buffer.length
  backed : reader.backed = true

namespace Reader

variable {buffer : Bytes} {position : Nat} {reader : Reader Cursor}

theorem At.skip (held : At buffer position reader) {count : Nat}
    (ahead : count ≤ reader.source.rest.length) : At buffer position (reader.skip count) := by
  obtain ⟨isBuffer, offset, -, backed⟩ := held
  subst isBuffer
  refine ⟨rfl, ?_, (reader.skip count).source.offset_le, backed⟩
  change (reader.source.skip count).offset = position + (reader.consumed + count)
  rw [Cursor.offset_skip, Nat.min_eq_left ahead, offset, Nat.add_assoc]

/-- The bytes ahead are those of the buffer from the offset on. -/
theorem At.rest_eq (held : At buffer position reader) :
    reader.source.rest = buffer.drop reader.source.offset := by
  rw [← held.unchanged]
  exact reader.source.rest_eq

end Reader

namespace ReadStep

end ReadStep

end PeerWire
