import PeerWire.Fault
import PeerWire.Scalar

/-!
# Byte sinks

A sink accepts a chunk of bytes as a whole or raises something. Three sinks are
given: one that grows, one over a buffer of fixed size, and one that follows a
script of acceptances and refusals. What the first two promise about their state
is part of their types.
-/

set_option autoImplicit false

namespace PeerWire

/-- Anything that chunks of bytes can be written to. -/
class ByteSink (σ : Type) where
  write : Bytes → σ → Except Thrown Unit × σ

/-! ## A sink that grows -/

/-- Bytes written so far, and the room set aside for them. -/
structure GrowableSink where
  capacity : Nat
  capacity_pos : 0 < capacity
  contents : Array UInt8
  size_le_capacity : contents.size ≤ capacity

namespace GrowableSink

/-- Doubles a capacity until it is large enough. -/
def doubled (required capacity : Nat) (positive : 0 < capacity) : Nat :=
  if required ≤ capacity then capacity
  else doubled required (capacity * 2) (Nat.mul_pos positive (by decide))
termination_by required - capacity
decreasing_by omega

theorem le_doubled (required capacity : Nat) (positive : 0 < capacity) :
    required ≤ doubled required capacity positive := by
  fun_induction doubled required capacity positive with
  | case1 capacity positive enough => exact enough
  | case2 capacity positive short ih => exact ih

theorem capacity_le_doubled (required capacity : Nat) (positive : 0 < capacity) :
    capacity ≤ doubled required capacity positive := by
  fun_induction doubled required capacity positive with
  | case1 capacity positive enough => exact Nat.le_refl capacity
  | case2 capacity positive short ih => omega

/-- An empty sink with the given capacity, or one byte if that is not positive. -/
def ofCapacity (capacity : Int) : GrowableSink where
  capacity := max 1 capacity.toNat
  capacity_pos := by omega
  contents := #[]
  size_le_capacity := Nat.zero_le _

/-- An empty sink with the usual capacity of sixty-four bytes. -/
def empty : GrowableSink :=
  ofCapacity 64

/-- The number of bytes written. -/
def length (sink : GrowableSink) : Nat :=
  sink.contents.size

/-- The bytes written. -/
def toBytes (sink : GrowableSink) : Bytes :=
  sink.contents.toList

/-- The sink with a chunk behind what it holds. -/
def push (chunk : Bytes) : GrowableSink → GrowableSink
  | ⟨capacity, positive, contents, _⟩ =>
    { capacity := doubled (contents.size + chunk.length) capacity positive
      capacity_pos := Nat.lt_of_lt_of_le positive (capacity_le_doubled _ _ _)
      contents := contents ++ chunk
      size_le_capacity := by
        rw [← Array.length_toList, Array.toList_appendList, List.length_append,
          Array.length_toList]
        exact le_doubled _ _ _ }

@[simp] theorem toBytes_push (chunk : Bytes) (sink : GrowableSink) :
    (sink.push chunk).toBytes = sink.toBytes ++ chunk := by
  simp only [toBytes, push, Array.toList_appendList]

instance : ByteSink GrowableSink := ⟨fun chunk sink => (.ok (), sink.push chunk)⟩

end GrowableSink

/-! ## A sink over a fixed buffer -/

/-- A buffer of a fixed capacity, in two stretches: what lies before the next
write, and the room behind it. -/
structure FixedSink where
  capacity : Nat
  behind : Array UInt8
  room : Bytes
  size_add_length : behind.size + room.length = capacity

namespace FixedSink

/-- The position of the next write. -/
def offset (sink : FixedSink) : Nat :=
  sink.behind.size

/-- All of the buffer. -/
def buffer (sink : FixedSink) : Bytes :=
  sink.behind.toList ++ sink.room

/-- The room left. -/
def remaining (sink : FixedSink) : Nat :=
  sink.capacity - sink.offset

@[simp] theorem length_buffer (sink : FixedSink) : sink.buffer.length = sink.capacity := by
  rw [← sink.size_add_length, buffer, List.length_append, Array.length_toList]

theorem offset_le (sink : FixedSink) : sink.offset ≤ sink.capacity := by
  have := sink.size_add_length
  simp only [offset]
  omega

/-- The sink over a buffer with the next write at a position. -/
def startingAt (buffer : Bytes) (position : Nat) : FixedSink where
  capacity := buffer.length
  behind := (buffer.take position).toArray
  room := buffer.drop position
  size_add_length := by
    simp only [List.size_toArray, List.length_take, List.length_drop]
    omega

/-- The sink over a buffer from a start offset, which must be a position in it. -/
def ofBuffer (buffer : Bytes) (offset : Scalar) : Except Fault FixedSink :=
  match offset.position? buffer.length with
  | some position => .ok (startingAt buffer position)
  | none => .error .badOffset

/-- Every position in a buffer is a start offset. -/
theorem ofBuffer_int {buffer : Bytes} {position : Nat} (within : position ≤ buffer.length) :
    ofBuffer buffer (.number (.int position)) = .ok (startingAt buffer position) := by
  rw [ofBuffer, Scalar.position?_int within]

/-- The sink over a buffer of zeros, as many as the integer part of a number
says. -/
def ofCapacity (capacity : Number) : Except Fault FixedSink :=
  let size := capacity.truncate
  if 0 ≤ size ∧ size ≤ Number.maxSafe then
    .ok (startingAt (List.replicate size.toNat 0) 0)
  else .error (.badSize capacity)

/-- Writes a chunk if it fits, and otherwise leaves the sink as it is. -/
def write (chunk : Bytes) : FixedSink → Except Thrown Unit × FixedSink
  | ⟨capacity, behind, room, whole⟩ =>
    let remaining := capacity - behind.size
    if h : chunk.length ≤ remaining then
      (.ok (),
        { capacity
          behind := behind ++ chunk
          room := room.drop chunk.length
          size_add_length := by
            rw [← Array.length_toList, Array.toList_appendList, List.length_append,
              Array.length_toList, List.length_drop]
            omega })
    else
      (.error (.fault (.sinkFull chunk.length remaining capacity)),
        ⟨capacity, behind, room, whole⟩)

/-- A chunk that fits takes the place of as many bytes from the offset on. -/
theorem buffer_write {chunk : Bytes} {sink : FixedSink} (fits : chunk.length ≤ sink.remaining) :
    (sink.write chunk).2.buffer
      = sink.buffer.take sink.offset ++ chunk ++ sink.buffer.drop (sink.offset + chunk.length) := by
  obtain ⟨capacity, behind, room, whole⟩ := sink
  have here : (write chunk ⟨capacity, behind, room, whole⟩).2.buffer
      = (behind ++ chunk).toList ++ room.drop chunk.length := by
    unfold write
    dsimp only
    rw [dif_pos (show chunk.length ≤ capacity - behind.size from fits)]
    rfl
  have size : behind.toList.length = behind.size := Array.length_toList
  have past : behind.toList.drop (behind.size + chunk.length) = [] :=
    List.drop_of_length_le (by omega)
  rw [here, Array.toList_appendList]
  change _ = (behind.toList ++ room).take behind.size ++ chunk
    ++ (behind.toList ++ room).drop (behind.size + chunk.length)
  rw [List.take_left' size, List.drop_append, past, size, Nat.add_sub_cancel_left,
    List.nil_append]

/-- A chunk that does not fit changes nothing. -/
theorem write_of_lt {chunk : Bytes} {sink : FixedSink} (large : sink.remaining < chunk.length) :
    sink.write chunk
      = (.error (.fault (.sinkFull chunk.length sink.remaining sink.capacity)), sink) := by
  unfold write
  exact dif_neg (Nat.not_le.mpr large)

instance : ByteSink FixedSink := ⟨write⟩

/-- The buffer, once it has been filled exactly. -/
def finish (sink : FixedSink) : Except Fault Bytes :=
  if sink.capacity = sink.offset then .ok sink.buffer
  else .error (.notFull sink.capacity sink.offset)

end FixedSink

/-! ## A sink that follows a script -/

/-- What a scripted sink does with one chunk. -/
inductive SinkStep where
  | accept
  | refuse (cause : Thrown)

/-- The steps ahead, and the chunks accepted so far. A sink whose script has run
out accepts. -/
structure ScriptedSink where
  script : List SinkStep
  chunks : Array Bytes

namespace ScriptedSink

/-- Takes the next step of the script; a refused chunk is not stored. -/
def write (chunk : Bytes) (sink : ScriptedSink) : Except Thrown Unit × ScriptedSink :=
  match sink.script with
  | .refuse cause :: more => (.error cause, { sink with script := more })
  | .accept :: more => (.ok (), ⟨more, sink.chunks.push chunk⟩)
  | [] => (.ok (), ⟨[], sink.chunks.push chunk⟩)

instance : ByteSink ScriptedSink := ⟨write⟩

end ScriptedSink

end PeerWire
