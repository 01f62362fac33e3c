import PeerWire.Proofs.Counts

/-!
# Emissions and sinks

An emission is delivered chunk by chunk, and the sink may refuse any of them. What
gathering gains is that a sink is asked once, or not at all. A gathered emission that
ends in a fault asks for nothing. Any other is one chunk: the sink takes all of the
bytes, or refuses them and reports why (`Format.encodeTo_all_or_nothing`).

On a sink over a fixed buffer the two ways of writing are compared outright. They agree
as long as the bytes fit the room that is left, and both fail when they do not. Then the
chunks in front of the one that was refused have been written, so that the buffer holds
a part of the value; the gathered emission has left it as it was.
-/

set_option autoImplicit false

namespace PeerWire

/-! ## Records of what a sink is asked -/

/-- A sink together with every chunk that it was asked to write, accepted or not. -/
structure Recorded (σ : Type) where
  sink : σ
  asked : List Bytes

namespace Recorded

variable {σ : Type}

/-- A sink that has been asked for nothing yet. -/
def ofSink (sink : σ) : Recorded σ :=
  ⟨sink, []⟩

instance [ByteSink σ] : ByteSink (Recorded σ) where
  write chunk recorded :=
    let written := ByteSink.write chunk recorded.sink
    (written.1, ⟨written.2, recorded.asked ++ [chunk]⟩)

end Recorded

/-! ## Gathered emissions -/

namespace Emission

variable {σ : Type} [ByteSink σ] {emission : Emission} {bytes : Bytes}

theorem toExcept_eq_ok_iff :
    emission.toExcept = .ok bytes
      ↔ (∃ count, emission.outcome = .ok count) ∧ emission.chunks.flatten = bytes := by
  rw [toExcept]
  cases emission.outcome with
  | ok count => simp [Emission.bytes]
  | error fault => simp

/-- What is returned when all chunks are written is the outcome behind them. -/
theorem send_eq_ok {outcome : Except Fault Nat} {chunks : List Bytes} {count : Nat}
    {sink after : σ} (sent : send outcome chunks sink = (.ok count, after)) :
    outcome = .ok count := by
  induction chunks generalizing sink with
  | nil =>
    cases outcome with
    | ok found =>
      cases sent
      rfl
    | error fault => cases sent
  | cons chunk rest ih =>
    rw [send] at sent
    rcases written : ByteSink.write chunk sink with ⟨reply, middle⟩
    rw [written] at sent
    cases reply with
    | ok done => exact ih sent
    | error cause => cases sent

/-- A fault is met before the sink is asked for anything. -/
theorem deliver_gathered_of_fault {fault : Fault} (faulty : emission.toExcept = .error fault)
    (sink : σ) : emission.gathered.deliver sink = (.error (.fault fault), sink) := by
  rw [gathered, faulty]
  rfl

/-- Bytes are handed to the sink in one piece. -/
theorem deliver_gathered_of_bytes (whole : emission.toExcept = .ok bytes) (sink : σ) :
    emission.gathered.deliver sink
      = match ByteSink.write bytes sink with
        | (.ok (), after) => (.ok bytes.length, after)
        | (.error cause, after) => (.error (.consensus (.io (.raised cause))), after) := by
  rw [gathered, whole, ofExcept, deliver, chunk, send]
  rcases ByteSink.write bytes sink with ⟨outcome, after⟩
  cases outcome with
  | error cause => rfl
  | ok done => rfl

end Emission

/-! ## Writing to a fixed buffer -/

namespace FixedSink

variable {sink : FixedSink}

/-- The sink behind a chunk that it was given. -/
def after (chunk : Bytes) (sink : FixedSink) : FixedSink :=
  (sink.write chunk).2

/-- One sink is what another has become by taking bytes: they stand from the old offset
on, the offset has moved behind them, and no other byte has changed. -/
structure Took (bytes : Bytes) (before after : FixedSink) : Prop where
  offset : after.offset = before.offset + bytes.length
  buffer : after.buffer
    = before.buffer.take before.offset ++ bytes ++ before.buffer.drop (before.offset + bytes.length)

/-- Taking a chunk that fits, in full. -/
theorem write_eq_of_le {chunk : Bytes} (fits : chunk.length ≤ sink.remaining) :
    sink.write chunk = (.ok (), sink.after chunk)
      ∧ (sink.after chunk).capacity = sink.capacity
      ∧ (sink.after chunk).behind = sink.behind ++ chunk
      ∧ (sink.after chunk).room = sink.room.drop chunk.length := by
  obtain ⟨capacity, behind, room, whole⟩ := sink
  have held : chunk.length ≤ capacity - behind.size := fits
  simp only [after, write, dif_pos held, and_self]

theorem took_after {chunk : Bytes} (fits : chunk.length ≤ sink.remaining) :
    Took chunk sink (sink.after chunk) where
  offset := by
    obtain ⟨-, -, behind, -⟩ := write_eq_of_le fits
    simp only [FixedSink.offset, behind, ← Array.length_toList, Array.toList_appendList,
      List.length_append]
  buffer := buffer_write fits

theorem remaining_after {chunk : Bytes} (fits : chunk.length ≤ sink.remaining) :
    (sink.after chunk).remaining = sink.remaining - chunk.length := by
  obtain ⟨-, capacity, -⟩ := write_eq_of_le fits
  simp only [remaining, capacity, (took_after fits).offset]
  omega

/-- Sinks agree when their buffers do, cut at the same place. -/
theorem ext_stretches {first second : FixedSink} (capacity : first.capacity = second.capacity)
    (behind : first.behind = second.behind) (room : first.room = second.room) :
    first = second := by
  cases first
  cases second
  cases capacity
  cases behind
  cases room
  rfl

theorem after_nil (sink : FixedSink) : sink.after [] = sink := by
  have fits : List.length ([] : Bytes) ≤ sink.remaining := Nat.zero_le _
  obtain ⟨-, capacity, behind, room⟩ := write_eq_of_le fits
  apply ext_stretches capacity
  · simp [behind]
  · simp [room]

/-- Two chunks that fit one behind the other are taken like one. -/
theorem after_append {first second : Bytes} (fits : (first ++ second).length ≤ sink.remaining) :
    (sink.after first).after second = sink.after (first ++ second) := by
  have whole := fits
  rw [List.length_append] at fits
  have firstFits : first.length ≤ sink.remaining := by omega
  have secondFits : second.length ≤ (sink.after first).remaining := by
    rw [remaining_after firstFits]
    omega
  obtain ⟨-, capacity, behind, room⟩ := write_eq_of_le firstFits
  obtain ⟨-, capacityAfter, behindAfter, roomAfter⟩ := write_eq_of_le secondFits
  obtain ⟨-, capacityWhole, behindWhole, roomWhole⟩ := write_eq_of_le whole
  apply ext_stretches
  · rw [capacityAfter, capacity, capacityWhole]
  · rw [behindAfter, behind, behindWhole, ← Array.toList_inj]
    simp only [Array.toList_appendList, List.append_assoc]
  · rw [roomAfter, room, roomWhole, List.drop_drop, List.length_append]

end FixedSink

namespace Emission

/-- Chunks that fit together are all taken, and leave the sink as one chunk would. -/
theorem send_of_le {chunks : List Bytes} {sink : FixedSink}
    (fits : chunks.flatten.length ≤ sink.remaining) (outcome : Except Fault Nat) :
    send outcome chunks sink = (outcome.mapError .fault, sink.after chunks.flatten) := by
  induction chunks generalizing sink with
  | nil => simp [send, FixedSink.after_nil]
  | cons chunk rest ih =>
    rw [List.flatten_cons] at fits ⊢
    have together := fits
    rw [List.length_append] at fits
    have here : chunk.length ≤ sink.remaining := by omega
    have behind : rest.flatten.length ≤ (sink.after chunk).remaining := by
      rw [FixedSink.remaining_after here]
      omega
    have accepted : ByteSink.write chunk sink = (.ok (), sink.after chunk) :=
      (FixedSink.write_eq_of_le here).1
    rw [send, accepted]
    dsimp only
    rw [ih behind, FixedSink.after_append together]

/-- Of chunks that do not fit together those in front of the first that is refused are
taken, and they are not all. -/
theorem send_of_lt {chunks : List Bytes} {sink : FixedSink}
    (large : sink.remaining < chunks.flatten.length) (outcome : Except Fault Nat) :
    ∃ front cause, front <+: chunks.flatten ∧ front.length ≤ sink.remaining
      ∧ send outcome chunks sink
        = (.error (.consensus (.io (.raised cause))), sink.after front) := by
  induction chunks generalizing sink with
  | nil => simp at large
  | cons chunk rest ih =>
    rw [List.flatten_cons] at large ⊢
    rw [List.length_append] at large
    rcases Nat.lt_or_ge sink.remaining chunk.length with refused | here
    · have stopped : ByteSink.write chunk sink
          = (.error (.fault (.sinkFull chunk.length sink.remaining sink.capacity)), sink) :=
        FixedSink.write_of_lt refused
      refine ⟨[], .fault (.sinkFull chunk.length sink.remaining sink.capacity),
        List.nil_prefix, Nat.zero_le _, ?_⟩
      rw [send, stopped, FixedSink.after_nil]
    · have accepted : ByteSink.write chunk sink = (.ok (), sink.after chunk) :=
        (FixedSink.write_eq_of_le here).1
      have behind : (sink.after chunk).remaining < rest.flatten.length := by
        rw [FixedSink.remaining_after here]
        omega
      obtain ⟨front, cause, isFront, fits, sent⟩ := ih behind
      have together : (chunk ++ front).length ≤ sink.remaining := by
        rw [FixedSink.remaining_after here] at fits
        rw [List.length_append]
        omega
      refine ⟨chunk ++ front, cause, (List.prefix_append_right_inj chunk).mpr isFront, together, ?_⟩
      rw [send, accepted]
      dsimp only
      rw [sent, FixedSink.after_append together]

end Emission

/-! ## Gathering in memory -/

/-- A sink that grows takes every chunk, whatever the outcome behind them. -/
theorem Emission.exists_deliver_growable (emission : Emission) (sink : GrowableSink) :
    ∃ after, after.toBytes = sink.toBytes ++ emission.bytes
      ∧ emission.deliver sink = (emission.outcome.mapError .fault, after) := by
  have sent : ∀ (chunks : List Bytes) (sink : GrowableSink),
      ∃ after, after.toBytes = sink.toBytes ++ chunks.flatten
        ∧ send emission.outcome chunks sink = (emission.outcome.mapError .fault, after) := by
    intro chunks
    induction chunks with
    | nil => exact fun sink => ⟨sink, by simp, rfl⟩
    | cons chunk rest ih =>
      intro sink
      obtain ⟨after, holds, reached⟩ := ih (sink.push chunk)
      exact ⟨after, by simp [holds], reached⟩
  exact sent emission.chunks sink

/-- The bytes of a value are what an empty sink in memory holds when the value has been
encoded into it, and their number is what the encoder returns. -/
theorem Format.serialize_eq_ok_iff_deliver {format : Format} {value : format.Val}
    {bytes : Bytes} :
    format.codec.serialize value = .ok bytes
      ↔ ∃ after, (format.codec.encode value).deliver GrowableSink.empty = (.ok bytes.length, after)
          ∧ after.toBytes = bytes := by
  obtain ⟨sink, holds, reached⟩ :=
    (format.codec.encode value).exists_deliver_growable GrowableSink.empty
  have fresh : GrowableSink.empty.toBytes = [] := rfl
  rw [fresh, List.nil_append] at holds
  rw [reached]
  constructor
  · intro written
    obtain ⟨outcome, contents⟩ := Format.outcome_eq_of_serialize written
    rw [outcome]
    exact ⟨sink, rfl, holds.trans contents⟩
  · rintro ⟨after, same, gathered⟩
    obtain ⟨outcome, rfl⟩ := Prod.mk.inj same
    rw [Codec.serialize, Emission.toExcept]
    cases ended : (format.codec.encode value).outcome with
    | error fault =>
      rw [ended] at outcome
      cases outcome
    | ok count => exact congrArg Except.ok (holds.symm.trans gathered)

/-- What an encoder returns is the number of bytes of the value, whatever sink it wrote to. -/
theorem Format.serialize_of_deliver {format : Format} {value : format.Val} {σ : Type} [ByteSink σ]
    {sink after : σ} {count : Nat}
    (delivered : (format.codec.encode value).deliver sink = (.ok count, after)) :
    ∃ bytes, format.codec.serialize value = .ok bytes ∧ bytes.length = count := by
  have outcome := Emission.send_eq_ok delivered
  refine ⟨_, Emission.toExcept_eq_ok_iff.mpr ⟨⟨count, outcome⟩, rfl⟩, ?_⟩
  exact (format.counts value count outcome).symm

/-! ## All or nothing -/

namespace Format

variable {σ : Type} [ByteSink σ]

/-- Writing the bytes of a value to a sink in one piece. A value that has no bytes ends in
the fault of serializing it, and the sink is asked for nothing. Any other value has the
sink asked once, for all of its bytes: they are counted if the sink accepts, and what the
sink raises is reported as the cause of an output error if it does not.

On a fixed buffer this succeeds exactly when encoding chunk by chunk does, which is when
the bytes fit. Then both leave the same buffer and return the same count, the one the
length of a single chunk, the other the sum that the encoder of the format has added up.
When the bytes do not fit, the buffer stays as it was; chunk by chunk, it takes a part of
the bytes that is not all of them. -/
theorem encodeTo_all_or_nothing (format : Format) (value : format.Val) (sink : σ)
    (fixed : FixedSink) :
    (∀ fault, format.codec.serialize value = .error fault →
        format.codec.encodeTo value sink = (.error (.fault fault), sink)
          ∧ (format.codec.encodeTo value (Recorded.ofSink sink)).2.asked = [])
      ∧ ∀ bytes, format.codec.serialize value = .ok bytes →
          (format.codec.encodeTo value (Recorded.ofSink sink)).2.asked = [bytes]
            ∧ (∀ after, ByteSink.write bytes sink = (.ok (), after) →
                format.codec.encodeTo value sink = (.ok bytes.length, after))
            ∧ (∀ cause after, ByteSink.write bytes sink = (.error cause, after) →
                format.codec.encodeTo value sink
                  = (.error (.consensus (.io (.raised cause))), after))
            ∧ (bytes.length ≤ fixed.remaining → ∃ after, FixedSink.Took bytes fixed after
                ∧ format.codec.encodeTo value fixed = (.ok bytes.length, after)
                ∧ (format.codec.encode value).deliver fixed = (.ok bytes.length, after))
            ∧ (fixed.remaining < bytes.length →
                (∃ cause, format.codec.encodeTo value fixed
                    = (.error (.consensus (.io (.raised cause))), fixed))
                  ∧ ∃ front cause after, front <+: bytes ∧ front.length < bytes.length
                    ∧ FixedSink.Took front fixed after
                    ∧ (format.codec.encode value).deliver fixed
                      = (.error (.consensus (.io (.raised cause))), after)) := by
  constructor
  · intro fault faulty
    refine ⟨Emission.deliver_gathered_of_fault faulty sink, ?_⟩
    rw [Codec.encodeTo, Emission.deliver_gathered_of_fault faulty]
    rfl
  · intro bytes whole
    obtain ⟨outcome, chunks⟩ := outcome_eq_of_serialize whole
    have asks := Emission.deliver_gathered_of_bytes whole sink
    have asksFixed := Emission.deliver_gathered_of_bytes whole fixed
    refine ⟨?_, ?_, ?_, ?_, ?_⟩
    · rw [Codec.encodeTo, Emission.deliver_gathered_of_bytes whole]
      rcases written : ByteSink.write bytes (Recorded.ofSink sink) with ⟨outcome, after⟩
      have record : after.asked = [bytes] := (congrArg (fun pair => pair.2.asked) written).symm
      cases outcome with
      | ok done => exact record
      | error cause => exact record
    · intro after accepted
      rw [accepted] at asks
      exact asks
    · intro cause after refused
      rw [refused] at asks
      exact asks
    · intro fits
      have accepted : ByteSink.write bytes fixed = (.ok (), fixed.after bytes) :=
        (FixedSink.write_eq_of_le fits).1
      rw [accepted] at asksFixed
      refine ⟨fixed.after bytes, FixedSink.took_after fits, asksFixed, ?_⟩
      rw [← chunks, Emission.bytes] at fits
      rw [Emission.deliver, Emission.send_of_le fits, outcome, ← Emission.bytes, chunks]
      rfl
    · intro large
      have refused : ByteSink.write bytes fixed
          = (.error (.fault (.sinkFull bytes.length fixed.remaining fixed.capacity)), fixed) :=
        FixedSink.write_of_lt large
      rw [refused] at asksFixed
      refine ⟨⟨_, asksFixed⟩, ?_⟩
      rw [← chunks, Emission.bytes] at large
      obtain ⟨front, cause, isFront, fits, sent⟩ :=
        Emission.send_of_lt large (format.codec.encode value).outcome
      rw [← Emission.bytes, chunks] at isFront large
      exact ⟨front, cause, fixed.after front, isFront, Nat.lt_of_le_of_lt fits large,
        FixedSink.took_after fits, sent⟩

/-- A byte and two more. In a buffer of three bytes there is room for them, and both ways of
writing return three; in one of two there is not, and nothing is written. A byte that is
none has its sink asked for nothing. -/
theorem encodeTo_all_or_nothing_pair :
    (∃ after, FixedSink.Took [1, 2, 3] (.startingAt [0, 0, 0] 0) after
        ∧ (pair u8 u16).codec.encodeTo (1, 0x0302) (FixedSink.startingAt [0, 0, 0] 0)
          = (.ok 3, after)
        ∧ ((pair u8 u16).codec.encode (1, 0x0302)).deliver (FixedSink.startingAt [0, 0, 0] 0)
          = (.ok 3, after))
      ∧ (∃ cause, (pair u8 u16).codec.encodeTo (1, 0x0302) (FixedSink.startingAt [0, 0] 0)
          = (.error (.consensus (.io (.raised cause))), .startingAt [0, 0] 0))
      ∧ ((pair u8 u16).codec.encodeTo (256, 0) (Recorded.ofSink GrowableSink.empty)).2.asked
        = [] := by
  have whole : (pair u8 u16).codec.serialize (1, 0x0302) = .ok [1, 2, 3] := rfl
  refine ⟨?_, ?_, ?_⟩
  · obtain ⟨-, -, -, fits, -⟩ := (encodeTo_all_or_nothing (pair u8 u16) (1, 0x0302)
      GrowableSink.empty (.startingAt [0, 0, 0] 0)).2 _ whole
    exact fits (by decide)
  · obtain ⟨-, -, -, -, large⟩ := (encodeTo_all_or_nothing (pair u8 u16) (1, 0x0302)
      GrowableSink.empty (.startingAt [0, 0] 0)).2 _ whole
    exact (large (by decide)).1
  · have faulty : (pair u8 u16).codec.serialize (256, 0) = .error (.notUnsigned 256 8) := rfl
    exact ((encodeTo_all_or_nothing (pair u8 u16) (256, 0) GrowableSink.empty
      (.startingAt [] 0)).1 _ faulty).2

end Format

end PeerWire
