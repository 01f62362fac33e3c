import PeerWire.Format

/-!
# Sessions

Several steps with one writer over one sink, or with one reader over one source. A step
that fails does not end a session: the next one is taken from where the failure left the
sink or the source.
-/

set_option autoImplicit false

namespace PeerWire

/-! ## Turns -/

/-- One step of a session: what it was taken from, what came of it, and what it left. -/
structure Turn {Step : Type} (Answer : Step → Type) (State : Type) where
  step : Step
  before : State
  answer : Answer step
  after : State

section Session

variable {Step State : Type} {Answer : Step → Type}
  (perform : (step : Step) → State → Answer step × State)

/-- The turns of a session, each taken from what the one before it left. -/
def session : State → List Step → List (Turn Answer State)
  | _, [] => []
  | state, step :: rest =>
    ⟨step, state, (perform step state).1, (perform step state).2⟩
      :: session (perform step state).2 rest

variable {perform}

/-- Every turn is a step taken from a state in which an invariant holds, if it holds at the
start and every step keeps it. -/
theorem turn_of_mem_session {Invariant : State → Prop}
    (kept : ∀ step state, Invariant state → Invariant (perform step state).2) {start : State}
    (holds : Invariant start) {steps : List Step} {turn : Turn Answer State}
    (inside : turn ∈ session perform start steps) :
    Invariant turn.before ∧ (turn.answer, turn.after) = perform turn.step turn.before := by
  induction steps generalizing start with
  | nil => cases inside
  | cons step rest ih =>
    rw [session] at inside
    rcases List.mem_cons.mp inside with rfl | later
    · exact ⟨holds, rfl⟩
    · exact ih (kept step start holds) later

end Session

/-! ## Steps -/

/-- The values of fixed width that writers and readers deal in themselves. -/
inductive Primitive where
  | u8
  | u16
  | u32
  | u64
  | i8
  | i16
  | i32
  | i64
  | bool

namespace Primitive

/-- The format of a primitive value. -/
@[reducible] def format : Primitive → Format
  | u8 => .u8
  | u16 => .u16
  | u32 => .u32
  | u64 => .u64
  | i8 => .i8
  | i16 => .i16
  | i32 => .i32
  | i64 => .i64
  | bool => .truth false

/-- The number of bytes of a primitive value. -/
def width : Primitive → Nat
  | u8 | i8 | bool => 1
  | u16 | i16 => 2
  | u32 | i32 => 4
  | u64 | i64 => 8

end Primitive

/-- A step with a writer. -/
inductive WriteStep where
  | primitive (kind : Primitive) (value : kind.format.Val)
  | slice (bytes : Bytes)
  /-- Writes a number or an unlimited integer in the shortest form of its magnitude. -/
  | varInt (value : Number ⊕ Int)
  | encode (format : Format) (value : format.Val)
  /-- Writes the bytes of a value as one chunk. -/
  | encodeTo (format : Format) (value : format.Val)

namespace WriteStep

/-- What a step has to write. -/
def emission : WriteStep → Emission
  | primitive kind value => kind.format.codec.encode value
  | slice bytes => .chunk bytes
  | varInt value => VarInt.emit (value.elim VarInt.ofNumber VarInt.ofInt)
  | encode format value => format.codec.encode value
  | encodeTo format value => (format.codec.encode value).gathered

/-- Takes a step: the number of bytes written, or the failure. -/
def perform {σ : Type} [ByteSink σ] (step : WriteStep) (sink : σ) : Except Failure Nat × σ :=
  step.emission.deliver sink

end WriteStep

/-- A step with a reader. -/
inductive ReadStep where
  | primitive (kind : Primitive)
  | bytes (count : Nat)
  /-- Fills a target, which holds something already. -/
  | slice (target : Bytes)
  | varInt
  | decode (format : Format)
  /-- Reads a raw message of one network. -/
  | message (network : Network)

namespace ReadStep

/-- What comes of a step. A target is handed back also when it was not filled. -/
@[reducible] def Answer : ReadStep → Type
  | primitive kind => Except Failure kind.format.Val
  | bytes _ => Except Failure Bytes
  | slice _ => Except ConsensusError Unit × Bytes
  | varInt => Except Failure VarInt
  | decode format => Except Failure format.Val
  | message _ => Except Failure RawMessage

/-- Takes a step. -/
def perform {σ : Type} [ByteSource σ] : (step : ReadStep) → Reader σ → step.Answer × Reader σ
  | primitive kind, reader => kind.format.codec.decode.run reader
  | bytes count, reader => (Decoder.bytes count).run reader
  | slice target, reader =>
    let filling := reader.readSlice target
    ((filling.outcome, filling.target), filling.reader)
  | varInt, reader => VarInt.decode.run reader
  | decode format, reader => format.codec.decode.run reader
  | message network, reader => (RawMessage.decoderFor network).run reader

end ReadStep

end PeerWire
