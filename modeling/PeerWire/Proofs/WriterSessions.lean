import PeerWire.Proofs.Delivery
import PeerWire.Session

/-!
# Sessions with a writer

Sinks in memory only ever append. What that means is given by a relation, that one state
of a sink comes from another by bytes added to it; the law is that an accepted chunk is
added and a refused one leaves the sink as it was (`AppendOnly`). The growable sink and the
sink over a fixed buffer satisfy it, the second with a relation that says of every byte of
the buffer what has become of it.

From the law for chunks follows what an emission does to a sink, and from that what a step
of a session does (`WriteStep.wrote_of_perform`). What a step returns is put together by the
encoders; that it is the number of bytes added is their law (`Format.counts`). The steps that
write one chunk or none do all or nothing; a value that is encoded piece by piece leaves the
pieces in front of the one that failed. What holds of every step holds along a session,
whatever failed in between (`WriteStep.session_append_only`).
-/

set_option autoImplicit false

namespace PeerWire

/-! ## Sinks that only append -/

/-- A sink changes by bytes added to it, if at all: an accepted chunk is added, and a refused
one leaves the sink as it was. `Grew` says that bytes were added between two states. -/
structure AppendOnly {σ : Type} [ByteSink σ] (Grew : Bytes → σ → σ → Prop) : Prop where
  none : ∀ sink : σ, Grew [] sink sink
  behind : ∀ {first second : Bytes} {before middle after : σ}, Grew first before middle →
    Grew second middle after → Grew (first ++ second) before after
  accepted : ∀ {chunk : Bytes} {sink after : σ}, ByteSink.write chunk sink = (.ok (), after) →
    Grew chunk sink after
  refused : ∀ {chunk : Bytes} {sink after : σ} {cause : Thrown},
    ByteSink.write chunk sink = (.error cause, after) → after = sink

namespace GrowableSink

/-- Bytes stand behind those that a sink held. -/
def Grew (added : Bytes) (before after : GrowableSink) : Prop :=
  after.toBytes = before.toBytes ++ added

theorem appendOnly : AppendOnly Grew where
  none sink := (List.append_nil _).symm
  behind first second := by
    rw [Grew] at first second ⊢
    rw [second, first, List.append_assoc]
  accepted {chunk sink after} written := by
    cases written
    exact toBytes_push chunk sink
  refused written := by cases written

end GrowableSink

namespace FixedSink

/-- Bytes fitted the room that was left and were taken. -/
def Grew (added : Bytes) (before after : FixedSink) : Prop :=
  added.length ≤ before.remaining ∧ after = before.after added

/-- A chunk is taken if it fits, and otherwise refused with the sink as it was. -/
theorem write_cases (chunk : Bytes) (sink : FixedSink) :
    (chunk.length ≤ sink.remaining ∧ ByteSink.write chunk sink = (.ok (), sink.after chunk))
      ∨ ∃ cause, ByteSink.write chunk sink = (.error cause, sink) := by
  rcases Nat.lt_or_ge sink.remaining chunk.length with large | fits
  · exact .inr ⟨_, write_of_lt large⟩
  · exact .inl ⟨fits, (write_eq_of_le fits).1⟩

theorem appendOnly : AppendOnly Grew where
  none sink := ⟨Nat.zero_le _, (after_nil sink).symm⟩
  behind {first second before middle after} := by
    rintro ⟨fits, rfl⟩ ⟨fitsBehind, rfl⟩
    rw [remaining_after fits] at fitsBehind
    have together : (first ++ second).length ≤ before.remaining := by
      rw [List.length_append]
      omega
    exact ⟨together, after_append together⟩
  accepted {chunk sink after} written := by
    rcases write_cases chunk sink with ⟨fits, taken⟩ | ⟨cause, stopped⟩
    · rw [taken] at written
      cases written
      exact ⟨fits, rfl⟩
    · rw [stopped] at written
      cases written
  refused {chunk sink after cause} written := by
    rcases write_cases chunk sink with ⟨fits, taken⟩ | ⟨cause, stopped⟩
    · rw [taken] at written
      cases written
    · rw [stopped] at written
      cases written
      rfl

end FixedSink

/-! ## Emissions -/

namespace AppendOnly

variable {σ : Type} [ByteSink σ] {Grew : Bytes → σ → σ → Prop}

/-- Chunks that are all accepted are all added; otherwise some of them are, from the front. -/
theorem send (law : AppendOnly Grew) (outcome : Except Fault Nat) (chunks : List Bytes)
    (sink : σ) :
    (∀ count after, Emission.send outcome chunks sink = (.ok count, after) →
        Grew chunks.flatten sink after)
      ∧ ∀ failure after, Emission.send outcome chunks sink = (.error failure, after) →
        ∃ written, Grew (chunks.take written).flatten sink after := by
  -- On the chunks, for every sink: an accepted one is added in front of what the rest adds,
  -- and a refused one is where sending ends.
  induction chunks generalizing sink with
  | nil =>
    cases outcome with
    | ok found =>
      refine ⟨fun count after sent => ?_, fun failure after sent => (by cases sent)⟩
      cases sent
      exact law.none sink
    | error fault =>
      refine ⟨fun count after sent => (by cases sent), fun failure after sent => ?_⟩
      cases sent
      exact ⟨0, law.none sink⟩
  | cons chunk rest ih =>
    rw [Emission.send]
    rcases written : ByteSink.write chunk sink with ⟨reply, middle⟩
    cases reply with
    | ok done =>
      obtain ⟨whole, partly⟩ := ih middle
      refine ⟨fun count after sent => ?_, fun failure after sent => ?_⟩
      · exact law.behind (law.accepted written) (whole count after sent)
      · obtain ⟨accepted, grew⟩ := partly failure after sent
        exact ⟨accepted + 1, law.behind (law.accepted written) grew⟩
    | error cause =>
      refine ⟨fun count after sent => (by cases sent), fun failure after sent => ?_⟩
      cases sent
      rw [law.refused written]
      exact ⟨0, law.none sink⟩

end AppendOnly

/-! ## Steps -/

/-- A single chunk, or a fault with nothing in front of it. -/
def Emission.IsAtomic (emission : Emission) : Prop :=
  (∃ bytes, emission = .chunk bytes) ∨ ∃ fault, emission = .fail fault

/-- An atomic emission that fails has written nothing. -/
theorem AppendOnly.after_eq_of_atomic {σ : Type} [ByteSink σ] {Grew : Bytes → σ → σ → Prop}
    (law : AppendOnly Grew) {emission : Emission} (atomic : emission.IsAtomic) {sink after : σ}
    {failure : Failure} (failed : emission.deliver sink = (.error failure, after)) :
    after = sink := by
  rcases atomic with ⟨bytes, rfl⟩ | ⟨fault, rfl⟩
  · rw [Emission.deliver, Emission.chunk, Emission.send] at failed
    rcases written : ByteSink.write bytes sink with ⟨outcome, middle⟩
    rw [written] at failed
    cases outcome with
    | ok done => cases failed
    | error cause =>
      cases failed
      exact law.refused written
  · cases failed
    rfl

/-- A chunk where a value passes its check, and otherwise a fault. -/
theorem Emission.isAtomic_ite (passed : Prop) [Decidable passed] (bytes : Bytes) (fault : Fault) :
    (if passed then chunk bytes else fail fault).IsAtomic := by
  split
  · exact .inl ⟨bytes, rfl⟩
  · exact .inr ⟨fault, rfl⟩

theorem Emission.isAtomic_ofExcept {α : Type} (checked : Except Fault α) (chunkOf : α → Bytes) :
    (ofExcept checked fun value => chunk (chunkOf value)).IsAtomic := by
  cases checked with
  | ok value => exact .inl ⟨_, rfl⟩
  | error fault => exact .inr ⟨_, rfl⟩

theorem Primitive.isAtomic_encode (kind : Primitive) (value : kind.format.Val) :
    (kind.format.codec.encode value).IsAtomic := by
  cases kind with
  | u8 => exact Emission.isAtomic_ite _ _ _
  | u16 => exact Emission.isAtomic_ite _ _ _
  | u32 => exact Emission.isAtomic_ite _ _ _
  | u64 => exact Emission.isAtomic_ite _ _ _
  | i8 => exact Emission.isAtomic_ite _ _ _
  | i16 => exact Emission.isAtomic_ite _ _ _
  | i32 => exact Emission.isAtomic_ite _ _ _
  | i64 => exact Emission.isAtomic_ite _ _ _
  | bool => exact .inl ⟨_, rfl⟩

namespace WriteStep

/-- Whether a step writes one chunk at most: all but those that encode piece by piece. -/
def isAtomic : WriteStep → Bool
  | encode _ _ => false
  | _ => true

theorem isAtomic_emission {step : WriteStep} (atomic : step.isAtomic = true) :
    step.emission.IsAtomic := by
  cases step with
  | primitive kind value => exact kind.isAtomic_encode value
  | slice bytes => exact .inl ⟨bytes, rfl⟩
  | varInt value => exact Emission.isAtomic_ofExcept _ VarInt.toBytes
  | encode format value => cases atomic
  | encodeTo format value => exact Emission.isAtomic_ofExcept _ id

/-- The count that a step returns is the number of bytes that it has to write. -/
theorem counted_emission (step : WriteStep) : step.emission.Counted := by
  cases step with
  | primitive kind value => exact kind.format.counts value
  | slice bytes => exact Emission.counted_chunk bytes
  | varInt value => exact Codec.counted_emit _
  | encode format value => exact format.counts value
  | encodeTo format value => exact Emission.counted_gathered _

/-- What a turn added, by what came of it. A step that succeeds adds the bytes it has to
write, which depend on the step alone, and returns their number. One that fails adds the first of
its chunks; if it is atomic, it leaves the sink as it was. -/
structure Wrote {σ : Type} (turn : Turn (fun _ : WriteStep => Except Failure Nat) σ)
    (added : Bytes) : Prop where
  counted : ∀ count, turn.answer = .ok count →
    turn.step.emission.toExcept = .ok added ∧ count = added.length
  partly : ∀ failure, turn.answer = .error failure →
    ∃ written, added = (turn.step.emission.chunks.take written).flatten
  unchanged : ∀ failure, turn.answer = .error failure → turn.step.isAtomic = true →
    added = [] ∧ turn.after = turn.before

section Law

variable {σ : Type} [ByteSink σ] {Grew : Bytes → σ → σ → Prop}

/-- Whatever comes of a step, the sink has grown by what the step has written. -/
theorem wrote_of_perform (law : AppendOnly Grew)
    (turn : Turn (fun _ : WriteStep => Except Failure Nat) σ)
    (taken : (turn.answer, turn.after) = perform turn.step turn.before) :
    ∃ added, Grew added turn.before turn.after ∧ Wrote turn added := by
  obtain ⟨step, before, answer, after⟩ := turn
  obtain ⟨whole, partly⟩ := law.send step.emission.outcome step.emission.chunks before
  have sent : Emission.send step.emission.outcome step.emission.chunks before = (answer, after) :=
    taken.symm
  cases answer with
  | ok count =>
    have returned := Emission.send_eq_ok sent
    refine ⟨step.emission.chunks.flatten, whole count after sent, ?_, ?_, ?_⟩
    · rintro _ ⟨⟩
      exact ⟨Emission.toExcept_eq_ok_iff.mpr ⟨⟨_, returned⟩, rfl⟩,
        step.counted_emission _ returned⟩
    · rintro _ ⟨⟩
    · rintro _ ⟨⟩
  | error failure =>
    -- Some of the chunks are added, from the front, but of an atomic step none is.
    obtain ⟨written, grew⟩ := partly failure after sent
    cases atomic : step.isAtomic with
    | true =>
      have same : after = before := law.after_eq_of_atomic (isAtomic_emission atomic) sent
      rw [same]
      refine ⟨[], law.none before, ?_, ?_, ?_⟩
      · rintro _ ⟨⟩
      · rintro _ ⟨⟩
        exact ⟨0, rfl⟩
      · rintro _ ⟨⟩ -
        exact ⟨rfl, rfl⟩
    | false =>
      refine ⟨_, grew, ?_, ?_, ?_⟩
      · rintro _ ⟨⟩
      · rintro _ ⟨⟩
        exact ⟨written, rfl⟩
      · rintro _ - whole
        rw [atomic] at whole
        cases whole

/-- In any turn of a session, the sink has grown from the start by what was written before,
and grows by what the step writes. -/
theorem exists_grew_of_mem_session (law : AppendOnly Grew) {start : σ} {steps : List WriteStep}
    {turn : Turn (fun _ : WriteStep => Except Failure Nat) σ}
    (inside : turn ∈ session perform start steps) :
    ∃ earlier added, Grew earlier start turn.before ∧ Grew (earlier ++ added) start turn.after
      ∧ Wrote turn added := by
  have kept : ∀ (step : WriteStep) (state : σ), (∃ earlier, Grew earlier start state) →
      ∃ earlier, Grew earlier start (perform step state).2 := by
    rintro step state ⟨earlier, grew⟩
    obtain ⟨added, more, -⟩ := wrote_of_perform law
      ⟨step, state, (perform step state).1, (perform step state).2⟩ rfl
    exact ⟨earlier ++ added, law.behind grew more⟩
  obtain ⟨⟨earlier, grew⟩, taken⟩ := turn_of_mem_session kept ⟨[], law.none start⟩ inside
  obtain ⟨added, more, wrote⟩ := wrote_of_perform law turn taken
  exact ⟨earlier, added, grew, law.behind grew more, wrote⟩

end Law

end WriteStep

/-! ## Buffers of fixed size -/

namespace FixedSink

/-- A sink over a buffer to which bytes have been added from a position on. They stand from
the position to the offset, every other byte is as it was, and the buffer is handed out as
soon as they reach its end, and no sooner. -/
structure Holds (buffer : Bytes) (position : Nat) (appended : Bytes) (sink : FixedSink) :
    Prop where
  offset : sink.offset = position + appended.length
  within : sink.offset ≤ buffer.length
  contents : sink.buffer = buffer.take position ++ appended ++ buffer.drop sink.offset
  finished : ∀ filled, sink.finish = .ok filled
    ↔ position + appended.length = buffer.length ∧ filled = buffer.take position ++ appended

theorem offset_startingAt {buffer : Bytes} {position : Nat} (within : position ≤ buffer.length) :
    (startingAt buffer position).offset = position := by
  simp only [offset, startingAt, List.size_toArray, List.length_take, Nat.min_eq_left within]

theorem buffer_startingAt (buffer : Bytes) (position : Nat) :
    (startingAt buffer position).buffer = buffer := by
  simp only [FixedSink.buffer, startingAt, List.take_append_drop]

/-- Bytes added to a fresh sink stand where it started. -/
theorem Grew.holds {buffer : Bytes} {position : Nat} {sink : FixedSink} {appended : Bytes}
    (grew : Grew appended (startingAt buffer position) sink)
    (within : position ≤ buffer.length) : Holds buffer position appended sink := by
  obtain ⟨fits, rfl⟩ := grew
  obtain ⟨moved, contents⟩ := took_after fits
  obtain ⟨-, capacity, -⟩ := write_eq_of_le fits
  have size : (startingAt buffer position).capacity = buffer.length := rfl
  rw [remaining, size, offset_startingAt within] at fits
  rw [buffer_startingAt, offset_startingAt within] at contents
  rw [offset_startingAt within] at moved
  refine ⟨moved, by omega, by rw [contents, moved], fun filled => ?_⟩
  rw [finish, capacity, size, moved]
  constructor
  · intro finished
    split at finished
    · next whole =>
      cases finished
      rw [contents, ← whole, List.drop_length, List.append_nil]
      exact ⟨rfl, rfl⟩
    · cases finished
  · rintro ⟨whole, rfl⟩
    rw [if_pos whole.symm, contents, whole, List.drop_length, List.append_nil]

end FixedSink

namespace WriteStep

/-- Sessions with a writer only append, whatever values the steps have and whichever of them
fail. Over a sink that grows, what was held stays in front of what is added. Over a buffer
of fixed size, every position in it is a start offset: bytes are added from there on within
the buffer, all others stay as they are, and the buffer is handed out exactly when it is
full. -/
theorem session_append_only :
    (∀ (start : GrowableSink) (steps : List WriteStep), ∀ turn ∈ session perform start steps,
        ∃ earlier added, turn.before.toBytes = start.toBytes ++ earlier
          ∧ turn.after.toBytes = turn.before.toBytes ++ added
          ∧ Wrote turn added)
      ∧ ∀ (buffer : Bytes) (position : Nat), position ≤ buffer.length →
          ∃ start, FixedSink.ofBuffer buffer (.number (.int position)) = .ok start
            ∧ start.Holds buffer position []
            ∧ ∀ steps : List WriteStep, ∀ turn ∈ session perform start steps,
              ∃ earlier added, turn.before.Holds buffer position earlier
                ∧ turn.after.Holds buffer position (earlier ++ added)
                ∧ Wrote turn added := by
  constructor
  · intro start steps turn inside
    obtain ⟨earlier, added, before, after, wrote⟩ :=
      exists_grew_of_mem_session GrowableSink.appendOnly inside
    refine ⟨earlier, added, before, ?_, wrote⟩
    rw [GrowableSink.Grew] at before after
    rw [after, before, List.append_assoc]
  · intro buffer position within
    have law := FixedSink.appendOnly
    refine ⟨.startingAt buffer position, FixedSink.ofBuffer_int within,
      (law.none _).holds within, fun steps turn inside => ?_⟩
    obtain ⟨earlier, added, before, after, wrote⟩ := exists_grew_of_mem_session law inside
    exact ⟨earlier, added, before.holds within, after.holds within, wrote⟩

/-- Three steps into the last three of four bytes: a number of two bytes is written, a pair
leaves its first half since the second is no byte, and for one more byte there is no room.
The four bytes are full then. -/
theorem session_append_only_pair :
    ∃ start, FixedSink.ofBuffer [7, 7, 7, 7] (.number 1) = .ok start
      ∧ (session perform start [.primitive .u16 0x0302, .encode (.pair .u8 .u8) (1, 256),
          .slice [5]]).map Turn.answer
        = [.ok 2, .error (.fault (.notUnsigned 256 8)),
            .error (.consensus (.io (.raised (.fault (.sinkFull 1 0 4)))))]
      ∧ (∀ turn ∈ session perform start [.primitive .u16 0x0302, .encode (.pair .u8 .u8) (1, 256),
            .slice [5]],
          ∃ added, turn.after.Holds [7, 7, 7, 7] 1 added)
      ∧ ∀ (sink : GrowableSink) (turn : Turn _ GrowableSink),
        turn ∈ session perform sink [.primitive .u8 256, .primitive .u8 1] →
          sink.toBytes <+: turn.after.toBytes := by
  obtain ⟨growable, fixed⟩ := session_append_only
  obtain ⟨start, made, -, turns⟩ := fixed [7, 7, 7, 7] 1 (by decide)
  cases made
  refine ⟨.startingAt [7, 7, 7, 7] 1, rfl, rfl, ?_, ?_⟩
  · intro turn inside
    obtain ⟨earlier, added, -, after, -⟩ := turns _ turn inside
    exact ⟨earlier ++ added, after⟩
  · intro sink turn inside
    obtain ⟨earlier, added, before, after, -⟩ := growable sink _ turn inside
    rw [after, before, List.append_assoc]
    exact List.prefix_append sink.toBytes _

end WriteStep

end PeerWire
