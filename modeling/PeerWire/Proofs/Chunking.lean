import PeerWire.Sequence
import PeerWire.Proofs.Starvation

/-!
# Sources that cut a stream differently

A source that keeps to its contract delivers a stream: some bytes, and then an end.
Each read brings some of the bytes ahead, at least one and no more than there is room
for, and how many is up to the source; once there are none left, the next read reports
that the source is exhausted, or raises something. `Delivers` says that a source
delivers given bytes with a given end, and leaves the cuts open.

Reading does not see the cuts. Filling a target comes to the same for every source that
delivers the same stream (`fillFrom_of_le`, `fillFrom_of_lt`): the bytes are laid one
piece behind the other, and what is missing at the end is what the stream lacks. So a
decoder makes of such a source what it makes of the stream (`Decoder.run_of_delivers`),
and counts what it takes of it. A cursor delivers the bytes ahead of it, which is why a
source that ends by being exhausted can be replaced by one.
-/

set_option autoImplicit false

namespace PeerWire

/-! ## Streams -/

/-- What a source does once all of its bytes are delivered. -/
inductive StreamEnd where
  /-- Every further read reports that nothing is left. -/
  | exhausted
  | raises (cause : Thrown)

namespace StreamEnd

/-- What a read at the end of a stream brings. -/
def reading : StreamEnd → Except Thrown Delivery
  | exhausted => .ok (.honest [])
  | raises cause => .error cause

/-- The error of a target that needs more bytes than it got before the end. -/
def problem (needed got : Nat) : StreamEnd → IoProblem
  | exhausted => .exhausted needed got
  | raises cause => .raised cause

end StreamEnd

/-- The source delivers exactly these bytes, in pieces of its own choosing, and ends
as stated. The size of a piece may depend on the room there is for it. -/
inductive Delivers {σ : Type} [ByteSource σ] (ending : StreamEnd) : Bytes → σ → Prop where
  | ended {source : σ}
      (last : ∀ room, 0 < room → (ByteSource.read room source).1 = ending.reading) :
      Delivers ending [] source
  | piece {bytes : Bytes} {source : σ} (size : Nat → Nat)
      (within : ∀ room, 0 < room →
        0 < size room ∧ size room ≤ room ∧ size room ≤ bytes.length)
      (brings : ∀ room, 0 < room →
        (ByteSource.read room source).1 = .ok (.honest (bytes.take (size room))))
      (onward : ∀ room, 0 < room →
        Delivers ending (bytes.drop (size room)) (ByteSource.read room source).2) :
      Delivers ending bytes source

/-! ## Filling a target -/

namespace Reader

variable {σ : Type} [ByteSource σ] {ending : StreamEnd} {bytes : Bytes} {source : σ}

/-- One read that brings a piece of the stream. -/
theorem fillFrom_of_piece {missing size : Nat} (filled : Bytes) (consumed : Nat)
    (positive : 0 < size) (fits : size ≤ missing + 1) (held : size ≤ bytes.length)
    (brings : (ByteSource.read (missing + 1) source).1 = .ok (.honest (bytes.take size))) :
    fillFrom (missing + 1) filled [] ⟨source, consumed, true⟩
      = fillFrom (missing + 1 - size) (filled ++ bytes.take size) []
          ⟨(ByteSource.read (missing + 1) source).2, consumed + size, true⟩ := by
  have length : (bytes.take size).length = size := by
    rw [List.length_take, Nat.min_eq_left held]
  have some : 0 < (bytes.take size).length := by omega
  have room : (bytes.take size).length ≤ missing + 1 := by omega
  rw [fillFrom_of_honest filled rfl brings some room (Nat.zero_le _), length, List.drop_nil]

/-- A target that the stream can fill is filled with its front. -/
theorem fillFrom_of_le (delivers : Delivers ending bytes source) {missing : Nat}
    (enough : missing ≤ bytes.length) (filled : Bytes) (consumed : Nat) :
    ∃ onward, Delivers ending (bytes.drop missing) onward
      ∧ fillFrom missing filled [] ⟨source, consumed, true⟩
        = ⟨.ok (), filled ++ bytes.take missing, ⟨onward, consumed + missing, true⟩⟩ := by
  -- Along the pieces: each is laid behind what is filled, and the rest is a smaller target.
  induction delivers generalizing missing filled consumed with
  | ended last =>
    have nothing : missing = 0 := Nat.le_zero.mp enough
    subst nothing
    exact ⟨_, .ended last, by rw [fillFrom]; rfl⟩
  | @piece bytes source size within brings onward ih =>
    cases missing with
    | zero => exact ⟨source, .piece size within brings onward, by rw [fillFrom]; rfl⟩
    | succ missing =>
      have room := missing.succ_pos
      obtain ⟨positive, fits, held⟩ := within (missing + 1) room
      have left : missing + 1 - size (missing + 1) ≤ (bytes.drop (size (missing + 1))).length := by
        rw [List.length_drop]
        omega
      obtain ⟨last, delivers, rest⟩ := ih (missing + 1) room left
        (filled ++ bytes.take (size (missing + 1))) (consumed + size (missing + 1))
      refine ⟨last, ?_, ?_⟩
      · rw [List.drop_drop, Nat.add_sub_cancel' fits] at delivers
        exact delivers
      · rw [fillFrom_of_piece filled consumed positive fits held (brings (missing + 1) room), rest,
          List.append_assoc, ← List.take_add, Nat.add_sub_cancel' fits, Nat.add_assoc,
          Nat.add_sub_cancel' fits]

/-- A target that the stream cannot fill takes all of it, and then meets its end. -/
theorem fillFrom_of_lt (delivers : Delivers ending bytes source) {missing : Nat}
    (short : bytes.length < missing) (filled : Bytes) (consumed : Nat) :
    ∃ target onward, fillFrom missing filled [] ⟨source, consumed, true⟩
      = ⟨.error (.io (ending.problem (filled.length + missing) (filled.length + bytes.length))),
          target, ⟨onward, consumed + bytes.length, true⟩⟩ := by
  obtain ⟨missing, rfl⟩ : ∃ lower, missing = lower + 1 := ⟨missing - 1, by omega⟩
  induction delivers generalizing missing filled consumed with
  | @ended source last =>
    have reading := last (missing + 1) missing.succ_pos
    rw [fillFrom]
    dsimp only
    generalize ByteSource.read (missing + 1) source = result at reading
    obtain ⟨outcome, onward⟩ := result
    cases ending <;> cases reading <;> exact ⟨_, onward, rfl⟩
  | @piece bytes source size within brings onward ih =>
    obtain ⟨positive, fits, held⟩ := within (missing + 1) missing.succ_pos
    have length : (bytes.take (size (missing + 1))).length = size (missing + 1) := by
      rw [List.length_take, Nat.min_eq_left held]
    have behind : (bytes.drop (size (missing + 1))).length = bytes.length - size (missing + 1) :=
      List.length_drop
    obtain ⟨lower, gap⟩ : ∃ lower, missing + 1 - size (missing + 1) = lower + 1 :=
      ⟨missing - size (missing + 1), by omega⟩
    obtain ⟨target, last, rest⟩ := ih (missing + 1) missing.succ_pos
      (filled ++ bytes.take (size (missing + 1))) (consumed + size (missing + 1)) lower (by omega)
    refine ⟨target, last, ?_⟩
    rw [fillFrom_of_piece filled consumed positive fits held
      (brings (missing + 1) missing.succ_pos), gap]
    have needed : filled.length + size (missing + 1) + (lower + 1)
        = filled.length + (missing + 1) := by omega
    have got : filled.length + size (missing + 1) + (bytes.length - size (missing + 1))
        = filled.length + bytes.length := by omega
    have count : consumed + size (missing + 1) + (bytes.length - size (missing + 1))
        = consumed + bytes.length := by omega
    rw [rest, List.length_append, length, behind, needed, got, count]

end Reader

/-! ## Running a decoder -/

namespace Decoder

variable {α : Type}

/-- What a decoder makes of a stream: what it makes of the bytes, except that where it
asks for more of them than there are it meets the end of the stream. -/
def outcome (decoder : Decoder α) (ending : StreamEnd) (bytes : Bytes) : Except Failure α :=
  match ending with
  | .exhausted => (decoder.parse bytes).1
  | .raises cause =>
    if decoder.starves bytes then .error (.consensus (.io (.raised cause)))
    else (decoder.parse bytes).1

theorem outcome_take_of_le {count : Nat} {bytes : Bytes} (held : count ≤ bytes.length)
    (next : Bytes → Decoder α) (ending : StreamEnd) :
    (take count next).outcome ending bytes
      = (next (bytes.take count)).outcome ending (bytes.drop count) := by
  cases ending <;> simp only [outcome, parse_take_of_le held, starves_take_of_le held]

theorem outcome_take_of_lt {count : Nat} {bytes : Bytes} (short : bytes.length < count)
    (next : Bytes → Decoder α) (ending : StreamEnd) :
    (take count next).outcome ending bytes
      = .error (.consensus (.io (ending.problem count bytes.length))) := by
  cases ending with
  | exhausted => simp only [outcome, parse_take_of_lt short, StreamEnd.problem]
  | raises cause => simp only [outcome, starves_take_of_lt short, StreamEnd.problem, if_true]

/-- Over a source that delivers a stream, a decoder ends as the stream has it, and the
reader counts the bytes taken. -/
theorem run_of_delivers {σ : Type} [ByteSource σ] (decoder : Decoder α) {ending : StreamEnd}
    {bytes : Bytes} {source : σ} (delivers : Delivers ending bytes source) (consumed : Nat) :
    (decoder.run ⟨source, consumed, true⟩).1 = decoder.outcome ending bytes
      ∧ (decoder.run ⟨source, consumed, true⟩).2.consumed
        = consumed + (bytes.length - (decoder.parse bytes).2.length) := by
  induction decoder generalizing bytes source consumed with
  | done value =>
    refine ⟨by cases ending <;> rfl, ?_⟩
    simp only [run, parse, Nat.sub_self, Nat.add_zero]
  | fail failure =>
    refine ⟨by cases ending <;> rfl, ?_⟩
    simp only [run, parse, Nat.sub_self, Nat.add_zero]
  | take count next ih =>
    rcases Nat.lt_or_ge bytes.length count with short | held
    · obtain ⟨target, onward, filled⟩ := Reader.fillFrom_of_lt delivers short [] consumed
      rw [List.length_nil, Nat.zero_add, Nat.zero_add] at filled
      rw [outcome_take_of_lt short, parse_take_of_lt short]
      simp only [run, Reader.readBytes, filled, List.length_nil, Nat.sub_zero, and_self]
    · obtain ⟨onward, behind, filled⟩ := Reader.fillFrom_of_le delivers held [] consumed
      obtain ⟨ends, counted⟩ := ih (bytes.take count) behind (consumed + count)
      have left := (parse_suffix (next (bytes.take count)) (bytes.drop count)).length_le
      rw [List.length_drop] at left counted
      have total : consumed + count
          + (bytes.length - count - ((next (bytes.take count)).parse (bytes.drop count)).2.length)
        = consumed
          + (bytes.length - ((next (bytes.take count)).parse (bytes.drop count)).2.length) := by
        omega
      rw [outcome_take_of_le held, parse_take_of_le held, ← ends, ← total, ← counted]
      simp only [run, Reader.readBytes, filled, List.nil_append, and_self]
  | reserve count size next ih =>
    obtain ⟨ends, counted⟩ := ih delivers consumed
    refine ⟨?_, counted⟩
    rw [run, ends]
    cases ending <;> rfl

end Decoder

/-! ## Sources that deliver -/

/-- A cursor delivers the bytes ahead of it, as many at a time as there is room for. -/
theorem Cursor.delivers (cursor : Cursor) : Delivers .exhausted cursor.rest cursor := by
  generalize ahead : cursor.rest = bytes
  induction size : bytes.length using Nat.strongRecOn generalizing bytes cursor with
  | ind length ih =>
    subst ahead
    cases empty : cursor.rest with
    | nil =>
      refine .ended fun room _ => ?_
      rw [Cursor.read_eq, empty, List.take_nil]
      rfl
    | cons byte more =>
      rw [← empty]
      have some : 0 < cursor.rest.length := by rw [empty]; exact Nat.succ_pos _
      refine .piece (fun room => min room cursor.rest.length) ?_ ?_ ?_
      · intro room positive
        refine ⟨Nat.lt_min.mpr ⟨positive, some⟩, Nat.min_le_left _ _, Nat.min_le_right _ _⟩
      · intro room _
        rw [Cursor.read_eq, ← List.take_eq_take_min]
      · intro room positive
        refine ih (cursor.rest.drop (min room cursor.rest.length)).length ?_ (cursor.skip room) _
          ?_ rfl
        · rw [← size, List.length_drop]
          omega
        · rw [Cursor.rest_skip, List.drop_eq_drop_min]

namespace ScriptedSource

/-- The steps of a script that delivers pieces and then ends. -/
def steps (pieces : List Bytes) (ending : StreamEnd) : List SourceStep :=
  pieces.map .deliver ++ match ending with
    | .exhausted => []
    | .raises cause => [.refuse cause]

/-- In front of a stream, a step of a script that delivers at least one byte. -/
theorem delivers_cons {ending : StreamEnd} {rest : Bytes} {script : List SourceStep}
    (behind : Delivers ending rest (ScriptedSource.mk script)) (piece : Bytes) (some : piece ≠ []) :
    Delivers ending (piece ++ rest) (ScriptedSource.mk (.deliver piece :: script)) := by
  induction size : piece.length using Nat.strongRecOn generalizing piece with
  | ind length ih =>
    have held : 0 < piece.length := List.length_pos_iff.mpr some
    refine .piece (fun room => min room piece.length) ?_ ?_ ?_
    · intro room positive
      refine ⟨Nat.lt_min.mpr ⟨positive, held⟩, Nat.min_le_left _ _, ?_⟩
      rw [List.length_append]
      omega
    · intro room _
      have read : (ByteSource.read room (ScriptedSource.mk (.deliver piece :: script))).1
          = .ok (.honest (piece.take room)) := rfl
      rw [read, List.take_append_of_le_length (Nat.min_le_right _ _), ← List.take_eq_take_min]
    · intro room positive
      have read : (ByteSource.read room (ScriptedSource.mk (.deliver piece :: script))).2
          = ⟨if piece.length ≤ room then script else .deliver (piece.drop room) :: script⟩ := rfl
      rw [read]
      -- What does not fit stays in front of the script, and is shorter.
      rcases Nat.lt_or_ge room piece.length with large | fits
      · rw [if_neg (Nat.not_le.mpr large), Nat.min_eq_left (Nat.le_of_lt large),
          List.drop_append_of_le_length (Nat.le_of_lt large)]
        have shorter : (piece.drop room).length < length := by
          rw [List.length_drop]
          omega
        refine ih _ shorter (piece.drop room) ?_ rfl
        rw [Ne, List.drop_eq_nil_iff]
        exact Nat.not_le.mpr large
      · rw [if_pos fits, Nat.min_eq_right fits, List.drop_left]
        exact behind

/-- A script that delivers pieces delivers what they come to together. -/
theorem delivers_steps (ending : StreamEnd) (pieces : List Bytes)
    (some : ∀ piece ∈ pieces, piece ≠ []) :
    Delivers ending pieces.flatten (ScriptedSource.mk (steps pieces ending)) := by
  induction pieces with
  | nil =>
    refine .ended fun room _ => ?_
    cases ending <;> rfl
  | cons piece rest ih =>
    rw [List.flatten_cons]
    exact delivers_cons (ih fun other within => some other (List.mem_cons_of_mem piece within))
      piece (some piece List.mem_cons_self)

end ScriptedSource

/-! ## Decoding does not see the cuts -/

namespace Codec

variable {α : Type}

/-- Two sources that deliver the same stream are decoded alike, with the same count of
bytes taken, and if the stream just ends, like a byte string that holds all of it. -/
theorem decode_eq_of_delivers {σ τ : Type} [ByteSource σ] [ByteSource τ] (codec : Codec α)
    (ending : StreamEnd) (stream : Bytes) (first : σ) (second : τ)
    (one : Delivers ending stream first) (other : Delivers ending stream second) :
    (codec.decode.run (.ofSource first)).1 = (codec.decode.run (.ofSource second)).1
      ∧ (codec.decode.run (.ofSource first)).2.consumed
        = (codec.decode.run (.ofSource second)).2.consumed
      ∧ (ending = .exhausted →
          (codec.decode.run (.ofSource first)).1
            = (codec.decode.run (.ofSource (Cursor.ofBytes stream))).1
          ∧ (codec.decode.run (.ofSource first)).2.consumed
            = (codec.decode.run (.ofSource (Cursor.ofBytes stream))).2.consumed) := by
  obtain ⟨ends, counted⟩ := codec.decode.run_of_delivers one 0
  obtain ⟨otherEnds, otherCounted⟩ := codec.decode.run_of_delivers other 0
  refine ⟨ends.trans otherEnds.symm, counted.trans otherCounted.symm, ?_⟩
  intro isExhausted
  subst isExhausted
  obtain ⟨wholeEnds, wholeCounted⟩ :=
    codec.decode.run_of_delivers (Cursor.ofBytes stream).delivers 0
  exact ⟨ends.trans wholeEnds.symm, counted.trans wholeCounted.symm⟩

/-- A list of texts, in pieces of two and three bytes and byte for byte. -/
theorem decode_eq_of_delivers_texts :
    ∃ halves single : ScriptedSource,
      Delivers .exhausted [2, 1, 97, 1, 98] halves
      ∧ Delivers .exhausted [2, 1, 97, 1, 98] single
      ∧ ((vector varString).decode.run (.ofSource halves)).1
        = ((vector varString).decode.run (.ofSource single)).1
      ∧ ((vector varString).decode.run (.ofSource halves)).2.consumed
        = ((vector varString).decode.run
            (.ofSource (Cursor.ofBytes [2, 1, 97, 1, 98]))).2.consumed := by
  have halves := ScriptedSource.delivers_steps .exhausted [[2, 1], [97, 1, 98]] (by decide)
  have single := ScriptedSource.delivers_steps .exhausted [[2], [1], [97], [1], [98]] (by decide)
  obtain ⟨alike, _, whole⟩ := decode_eq_of_delivers (vector varString) .exhausted
    [2, 1, 97, 1, 98] _ _ halves single
  exact ⟨_, _, halves, single, alike, (whole rfl).2⟩

end Codec

end PeerWire
