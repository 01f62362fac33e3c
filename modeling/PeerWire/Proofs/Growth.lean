import Mathlib.Algebra.GroupWithZero.Nat
import PeerWire.Sink
import PeerWire.Proofs.Windows

/-!
# A growing sink in memory

A sink that grows keeps its bytes at the front of an array that has room to spare. When a chunk
does not fit, a capacity is doubled until it does, a new array of that size is set up, and what
has been written is copied to its front. The bytes are handed out as a copy, in an array of its
own.

All of this can go wrong: the loop may never end, bytes may not fit the array they are put into,
and what was handed out may be the array that is written to next. So arrays are given names here
(`Memory`), the calls of the sink may have no result (`StoredSink`), and a copy is followed by
its name. From a capacity of zero the loop ends only if nothing is required, and from every other
it ends (`Doubling.run_eq_none_iff`); this is why a sink starts with one place at least.

One predicate carries the rest: the array starts with what has been written and has a given
number of places (`StoredSink.Shows`). Each call has a result, keeps this up, and leaves every
array alone that is not the sink's own (`StoredSink.Spares`). The bytes and the number of places
are those of a `GrowableSink` after the same calls, which therefore stands for the whole of it
(`StoredSink.growth_keeps_every_byte`). Memory does not run out here: an array can have any size.
-/

set_option autoImplicit false

namespace PeerWire

/-! ## The loop -/

/-- Where the loop is: how many places are required, and the capacity that it has come to. -/
structure Doubling where
  required : Nat
  capacity : Nat

namespace Doubling

/-- Doubles the capacity while it is short of what is required. There is no result if this never
ends. -/
def run (loop : Doubling) : Option Nat :=
  if loop.capacity < loop.required then
    { loop with capacity := loop.capacity * 2 } |>.run
  else
    some loop.capacity
partial_fixpoint

theorem run_of_lt {required capacity : Nat} (short : capacity < required) :
    run ⟨required, capacity⟩ = run ⟨required, capacity * 2⟩ := by
  rw [run, if_pos short]

theorem run_of_le {required capacity : Nat} (enough : required ≤ capacity) :
    run ⟨required, capacity⟩ = some capacity := by
  rw [run, if_neg (Nat.not_lt.mpr enough)]

/-- From a positive capacity the loop ends. -/
theorem run_of_pos (required : Nat) {capacity : Nat} (positive : 0 < capacity) :
    run ⟨required, capacity⟩ = some (GrowableSink.doubled required capacity positive) := by
  fun_induction GrowableSink.doubled required capacity positive with
  | case1 capacity positive enough => exact run_of_le enough
  | case2 capacity positive short ih => exact (run_of_lt (Nat.lt_of_not_le short)).trans ih

/-- It never ends exactly if it doubles nothing and something is required. -/
theorem run_eq_none_iff {required capacity : Nat} :
    run ⟨required, capacity⟩ = none ↔ capacity = 0 ∧ 0 < required := by
  constructor
  · intro never
    rcases Nat.eq_zero_or_pos capacity with nothing | positive
    · refine ⟨nothing, Nat.pos_of_ne_zero ?_⟩
      rintro rfl
      rw [run_of_le (Nat.zero_le capacity)] at never
      cases never
    · rw [run_of_pos required positive] at never
      cases never
  · rintro ⟨rfl, needed⟩
    -- Whatever the loop ends with, it ends with it again from twice the capacity, which is zero.
    have stuck : ∀ loop last, run loop = some last → loop ≠ ⟨required, 0⟩ := by
      refine run.partial_correctness (fun loop _ => loop ≠ ⟨required, 0⟩) ?_
      rintro again ih loop last ends rfl
      rw [if_pos needed, Nat.zero_mul] at ends
      exact ih _ last ends rfl
    cases ends : run ⟨required, 0⟩ with
    | none => rfl
    | some last => exact absurd rfl (stuck _ last ends)

end Doubling

namespace GrowableSink

/-- Where the loop is entered, it goes on from twice the capacity. -/
theorem doubled_of_lt {required capacity : Nat} (positive : 0 < capacity)
    (short : capacity < required) :
    doubled required capacity positive
      = doubled required (capacity * 2) (Nat.mul_pos positive (by decide)) := by
  rw [doubled, if_neg (Nat.not_le.mpr short)]

theorem doubled_of_le {required capacity : Nat} (positive : 0 < capacity)
    (enough : required ≤ capacity) : doubled required capacity positive = capacity := by
  rw [doubled, if_pos enough]

/-! ## One chunk -/

theorem length_eq (sink : GrowableSink) : sink.length = sink.toBytes.length :=
  Array.length_toList.symm

theorem capacity_push (chunk : Bytes) (sink : GrowableSink) :
    (sink.push chunk).capacity
      = doubled (sink.toBytes.length + chunk.length) sink.capacity sink.capacity_pos := by
  rw [← length_eq]
  rfl

end GrowableSink

/-! ## Arrays in memory -/

/-- The arrays there are. The name of an array is its place in this list. -/
structure Memory where
  arrays : List Bytes

namespace Memory

/-- The bytes of an array. -/
def read (memory : Memory) (name : Nat) : Option Bytes :=
  memory.arrays[name]?

/-- The name of a new array, and the memory with it. -/
def allocate (bytes : Bytes) (memory : Memory) : Nat × Memory :=
  (memory.arrays.length, ⟨memory.arrays ++ [bytes]⟩)

/-- The name of a new array of zeros, and the memory with it. -/
def allocateZeros (size : Nat) (memory : Memory) : Nat × Memory :=
  memory.allocate (List.replicate size 0)

/-- Puts bytes into an array, from a place on. There is no result if they do not fit. -/
def put (name place : Nat) (bytes : Bytes) (memory : Memory) : Option Memory := do
  let array ← memory.read name
  if place + bytes.length ≤ array.length then
    return ⟨memory.arrays.set name (array.patch place bytes)⟩
  else
    none

variable {memory : Memory} {name : Nat} {array : Bytes}

theorem lt_of_read (held : memory.read name = some array) : name < memory.arrays.length :=
  (List.getElem?_eq_some_iff.mp held).1

/-- A new array has a name that none had before. -/
theorem ne_allocate_of_read (held : memory.read name = some array) (bytes : Bytes) :
    name ≠ (memory.allocate bytes).1 :=
  Nat.ne_of_lt (lt_of_read held)

theorem read_allocate (bytes : Bytes) (memory : Memory) :
    (memory.allocate bytes).2.read (memory.allocate bytes).1 = some bytes :=
  List.getElem?_concat_length

theorem read_allocate_of_read (held : memory.read name = some array) (bytes : Bytes) :
    (memory.allocate bytes).2.read name = some array := by
  rw [← held]
  exact List.getElem?_append_left (lt_of_read held)

/-- Bytes that fit are put in their place, and no other array changes. -/
theorem exists_put {place : Nat} {bytes : Bytes} (held : memory.read name = some array)
    (fits : place + bytes.length ≤ array.length) :
    ∃ after, memory.put name place bytes = some after
      ∧ after.read name = some (array.patch place bytes)
      ∧ ∀ other, other ≠ name → after.read other = memory.read other := by
  refine ⟨⟨memory.arrays.set name (array.patch place bytes)⟩, ?_, ?_, fun other apart => ?_⟩
  · rw [put, held]
    exact if_pos fits
  · exact List.getElem?_set_self (lt_of_read held)
  · exact List.getElem?_set_ne apart.symm

/-- Bytes put behind others into the spare places of an array. -/
theorem patch_behind (bytes spare chunk : Bytes) :
    (bytes ++ spare).patch bytes.length chunk = (bytes ++ chunk) ++ spare.drop chunk.length := by
  rw [Bytes.patch, List.take_left, List.drop_append, List.drop_of_length_le (by omega),
    Nat.add_sub_cancel_left, List.nil_append]

/-- A new array takes as many bytes as it has places to its front, and all others stay as they
were. -/
theorem exists_put_allocateZeros {size : Nat} {bytes : Bytes} (fits : bytes.length ≤ size)
    (memory : Memory) :
    ∃ after spare,
      (memory.allocateZeros size).2.put (memory.allocateZeros size).1 0 bytes = some after
      ∧ after.read (memory.allocateZeros size).1 = some (bytes ++ spare)
      ∧ (bytes ++ spare).length = size
      ∧ ∀ other held, memory.read other = some held →
          other ≠ (memory.allocateZeros size).1 ∧ after.read other = some held := by
  have fresh : (memory.allocateZeros size).2.read (memory.allocateZeros size).1 = _ :=
    read_allocate (List.replicate size 0) memory
  have places : 0 + bytes.length ≤ (List.replicate size (0 : UInt8)).length := by
    rw [List.length_replicate, Nat.zero_add]
    exact fits
  obtain ⟨after, put, filled, others⟩ := exists_put fresh places
  have front : Bytes.patch (List.replicate size 0) 0 bytes
      = bytes ++ (List.replicate size 0).drop bytes.length := patch_behind [] _ bytes
  rw [front] at filled
  refine ⟨after, _, put, filled, ?_, fun other held isHeld => ?_⟩
  · rw [List.length_append, List.length_drop, List.length_replicate]
    omega
  · have apart := ne_allocate_of_read isHeld (List.replicate size 0)
    exact ⟨apart, (others other apart).trans (read_allocate_of_read isHeld _)⟩

end Memory

/-! ## The sink and its calls -/

/-- A sink in memory: the name of the array behind it, and the number of bytes written. -/
structure StoredSink where
  memory : Memory
  buffer : Nat
  length : Nat

namespace StoredSink

/-- A new sink, over an array of zeros with as many places as its initial capacity says, and one
at least. -/
def construct (capacity : Int) (memory : Memory) : StoredSink :=
  let (buffer, memory) := memory.allocateZeros (max 1 capacity).toNat
  ⟨memory, buffer, 0⟩

/-- The number of places of the array behind a sink. -/
def capacity (stored : StoredSink) : Option Nat := do
  let array ← stored.memory.read stored.buffer
  return array.length

/-- Makes room for more bytes, in a new array if the array behind the sink is too small. -/
def reserve (additional : Nat) (stored : StoredSink) : Option StoredSink := do
  let array ← stored.memory.read stored.buffer
  let required := stored.length + additional
  if required ≤ array.length then
    return stored
  else
    let capacity ← Doubling.run ⟨required, array.length * 2⟩
    let (next, memory) := stored.memory.allocateZeros capacity
    let memory ← memory.put next 0 (array.take stored.length)
    return ⟨memory, next, stored.length⟩

/-- Writes a chunk behind what has been written. -/
def write (chunk : Bytes) (stored : StoredSink) : Option StoredSink := do
  let reserved ← stored.reserve chunk.length
  let memory ← reserved.memory.put reserved.buffer reserved.length chunk
  return ⟨memory, reserved.buffer, reserved.length + chunk.length⟩

/-- Hands out the bytes written, as the name of a new array. -/
def toBytes (stored : StoredSink) : Option (Nat × StoredSink) := do
  let array ← stored.memory.read stored.buffer
  let (copy, memory) := stored.memory.allocate (array.take stored.length)
  return (copy, ⟨memory, stored.buffer, stored.length⟩)

end StoredSink

/-- A call of a sink in memory. -/
inductive SinkCall where
  | write (chunk : Bytes)
  | toBytes

namespace SinkCall

/-- Makes a call. -/
def perform (stored : StoredSink) : SinkCall → Option StoredSink
  | write chunk => stored.write chunk
  | toBytes => do
    let (_, after) ← stored.toBytes
    return after

/-- Makes calls one after the other. -/
def performAll (calls : List SinkCall) (stored : StoredSink) : Option StoredSink :=
  calls.foldlM perform stored

/-- The chunks that are written. -/
def written (calls : List SinkCall) : List Bytes :=
  calls.filterMap fun
    | write chunk => some chunk
    | toBytes => none

end SinkCall

/-! ## What a call does -/

namespace StoredSink

/-- A sink in memory shows bytes, with room for some number of them in all: it has counted them,
and they are at the front of an array of that many places. -/
structure Shows (stored : StoredSink) (bytes : Bytes) (room : Nat) : Prop where
  length_eq : stored.length = bytes.length
  array_eq : ∃ spare, stored.memory.read stored.buffer = some (bytes ++ spare)
    ∧ (bytes ++ spare).length = room

/-- There is an array of these bytes that is not the one behind a sink. -/
def HasApart (stored : StoredSink) (name : Nat) (bytes : Bytes) : Prop :=
  name ≠ stored.buffer ∧ stored.memory.read name = some bytes

/-- The arrays that are not behind a sink stay as they are, and do not come to be behind it. -/
def Spares (before after : StoredSink) : Prop :=
  ∀ name bytes, before.HasApart name bytes → after.HasApart name bytes

theorem Spares.refl (stored : StoredSink) : stored.Spares stored :=
  fun _ _ apart => apart

theorem Spares.trans {before middle after : StoredSink} (first : before.Spares middle)
    (second : middle.Spares after) : before.Spares after :=
  fun name bytes apart => second name bytes (first name bytes apart)

variable {stored : StoredSink} {bytes : Bytes} {room : Nat}

theorem Shows.capacity_eq (shows : stored.Shows bytes room) : stored.capacity = some room := by
  obtain ⟨-, spare, behind, size⟩ := shows
  rw [capacity, behind, ← size]
  rfl

theorem Shows.exists_array (shows : stored.Shows bytes room) :
    ∃ array, stored.memory.read stored.buffer = some array ∧ array.take stored.length = bytes
      ∧ array.length = room := by
  obtain ⟨counted, spare, behind, size⟩ := shows
  exact ⟨_, behind, by rw [counted, List.take_left], size⟩

/-- Room is made whatever is asked for. The bytes written are then where they were, or at the
front of a new array. -/
theorem exists_reserve (shows : stored.Shows bytes room) (positive : 0 < room)
    (additional : Nat) :
    ∃ after, stored.reserve additional = some after
      ∧ after.Shows bytes (GrowableSink.doubled (bytes.length + additional) room positive)
      ∧ stored.Spares after := by
  obtain ⟨memory, buffer, length⟩ := stored
  obtain ⟨array, behind, live, rfl⟩ := shows.exists_array
  obtain rfl : length = bytes.length := shows.length_eq
  rw [reserve, behind, Option.bind_eq_bind, Option.bind_some]
  dsimp only at live ⊢
  rcases Nat.lt_or_ge array.length (bytes.length + additional) with short | enough
  · have twice : 0 < array.length * 2 := Nat.mul_pos positive (by decide)
    have reached := GrowableSink.le_doubled (bytes.length + additional) _ twice
    obtain ⟨after, spare, put, filled, size, others⟩ :=
      Memory.exists_put_allocateZeros (Nat.le_of_add_right_le reached) memory
    rw [if_neg (Nat.not_le.mpr short), Doubling.run_of_pos _ twice,
      GrowableSink.doubled_of_lt positive short]
    refine ⟨⟨after, _, bytes.length⟩, ?_, ⟨rfl, spare, filled, size⟩, ?_⟩
    · rw [Option.bind_eq_bind, Option.bind_some, live, put]
      rfl
    · rintro name held ⟨-, isHeld⟩
      exact others name held isHeld
  · rw [if_pos enough, GrowableSink.doubled_of_le positive enough]
    exact ⟨_, rfl, shows, .refl _⟩

/-- A chunk of any length is written behind the bytes that are there. -/
theorem exists_write (shows : stored.Shows bytes room) (positive : 0 < room) (chunk : Bytes) :
    ∃ after, stored.write chunk = some after
      ∧ after.Shows (bytes ++ chunk)
          (GrowableSink.doubled (bytes.length + chunk.length) room positive)
      ∧ stored.Spares after := by
  have reached := GrowableSink.le_doubled (bytes.length + chunk.length) room positive
  obtain ⟨⟨memory, buffer, length⟩, reserved, ⟨counted, spare, behind, size⟩, spared⟩ :=
    exists_reserve shows positive chunk.length
  obtain rfl : length = bytes.length := counted
  have fits : bytes.length + chunk.length ≤ (bytes ++ spare).length := size ▸ reached
  obtain ⟨after, put, filled, others⟩ := Memory.exists_put behind fits
  rw [Memory.patch_behind] at filled
  refine ⟨⟨after, buffer, bytes.length + chunk.length⟩, ?_,
    ⟨List.length_append.symm, _, filled, ?_⟩, fun name held isApart => ?_⟩
  · rw [write, reserved, Option.bind_eq_bind, Option.bind_some, put]
    rfl
  · rw [← size, ← Memory.patch_behind, Bytes.length_patch fits]
  · obtain ⟨apart, isHeld⟩ := spared name held isApart
    exact ⟨apart, (others name apart).trans isHeld⟩

/-- The bytes are handed out in an array of their own, and the sink goes on with the one that it
has. -/
theorem exists_toBytes (shows : stored.Shows bytes room) :
    ∃ copy after, stored.toBytes = some (copy, after)
      ∧ after.HasApart copy bytes
      ∧ after.Shows bytes room
      ∧ stored.Spares after := by
  obtain ⟨array, behind, live, -⟩ := shows.exists_array
  obtain ⟨counted, spare, isHeld, size⟩ := shows
  have fresh := Memory.ne_allocate_of_read isHeld bytes
  refine ⟨_, ⟨(stored.memory.allocate bytes).2, stored.buffer, stored.length⟩, ?_,
    ⟨fresh.symm, Memory.read_allocate bytes stored.memory⟩,
    ⟨counted, spare, Memory.read_allocate_of_read isHeld bytes, size⟩, ?_⟩
  · rw [toBytes, behind, Option.bind_eq_bind, Option.bind_some, live]
    rfl
  · rintro name held ⟨apart, isKnown⟩
    exact ⟨apart, Memory.read_allocate_of_read isKnown bytes⟩

end StoredSink

/-! ## What calls do -/

namespace SinkCall

/-- What a call does to a `GrowableSink`. -/
def effect (sink : GrowableSink) : SinkCall → GrowableSink
  | write chunk => sink.push chunk
  | toBytes => sink

/-- What calls one after the other do to it. -/
def effectAll (calls : List SinkCall) (sink : GrowableSink) : GrowableSink :=
  calls.foldl effect sink

theorem toBytes_effectAll (calls : List SinkCall) (sink : GrowableSink) :
    (effectAll calls sink).toBytes = sink.toBytes ++ (written calls).flatten := by
  induction calls generalizing sink with
  | nil => exact (List.append_nil _).symm
  | cons call rest ih =>
    cases call with
    | write chunk =>
      have first : (effectAll rest (sink.push chunk)).toBytes = _ := ih (sink.push chunk)
      rw [GrowableSink.toBytes_push, List.append_assoc] at first
      exact first
    | toBytes => exact ih sink

theorem capacity_le_effect (call : SinkCall) (sink : GrowableSink) :
    sink.capacity ≤ (effect sink call).capacity := by
  cases call with
  | write chunk =>
    rw [effect, GrowableSink.capacity_push]
    exact GrowableSink.capacity_le_doubled _ _ _
  | toBytes => exact Nat.le_refl _

theorem capacity_le_effectAll (calls : List SinkCall) (sink : GrowableSink) :
    sink.capacity ≤ (effectAll calls sink).capacity := by
  induction calls generalizing sink with
  | nil => exact Nat.le_refl _
  | cons call rest ih => exact Nat.le_trans (capacity_le_effect call sink) (ih (effect sink call))

section Perform

variable {stored : StoredSink} {sink : GrowableSink}

/-- A call has a result. It does to a sink in memory what it does to a `GrowableSink`, and leaves
every array alone that is not the sink's own. -/
theorem exists_perform (shows : stored.Shows sink.toBytes sink.capacity) (call : SinkCall) :
    ∃ after, perform stored call = some after
      ∧ after.Shows (effect sink call).toBytes (effect sink call).capacity
      ∧ stored.Spares after := by
  cases call with
  | write chunk =>
    obtain ⟨after, performed, shown, spared⟩ :=
      StoredSink.exists_write shows sink.capacity_pos chunk
    refine ⟨after, performed, ?_, spared⟩
    rwa [effect, GrowableSink.toBytes_push, GrowableSink.capacity_push]
  | toBytes =>
    obtain ⟨copy, after, performed, -, shown, spared⟩ := StoredSink.exists_toBytes shows
    refine ⟨after, ?_, shown, spared⟩
    rw [perform, performed]
    rfl

theorem exists_performAll (shows : stored.Shows sink.toBytes sink.capacity)
    (calls : List SinkCall) :
    ∃ after, performAll calls stored = some after
      ∧ after.Shows (effectAll calls sink).toBytes (effectAll calls sink).capacity
      ∧ stored.Spares after := by
  induction calls generalizing stored sink with
  | nil => exact ⟨stored, rfl, shows, .refl stored⟩
  | cons call rest ih =>
    obtain ⟨middle, performed, shown, spared⟩ := exists_perform shows call
    obtain ⟨after, performedRest, shownRest, sparedRest⟩ := ih shown
    refine ⟨after, ?_, shownRest, spared.trans sparedRest⟩
    rw [performAll, List.foldlM_cons, performed]
    exact performedRest

end Perform

end SinkCall

/-! ## A sink from its beginning -/

namespace StoredSink

open SinkCall (performAll effectAll written)

/-- A new sink in memory shows what a new `GrowableSink` holds. -/
theorem shows_ofCapacity (capacity : Int) (memory : Memory) :
    (construct capacity memory).Shows (GrowableSink.ofCapacity capacity).toBytes
      (GrowableSink.ofCapacity capacity).capacity where
  length_eq := rfl
  array_eq := ⟨_, Memory.read_allocate _ memory, by
    change (List.replicate (max 1 capacity).toNat 0).length = max 1 capacity.toNat
    rw [List.length_replicate]
    omega⟩

/-- Whatever its initial capacity, and whatever is written to it in whatever pieces, a growing sink
answers every call. At every point it has counted the bytes written, the array behind it has a
place for each of them and one at least, and it hands out the chunks in order. What it has handed
out stays as it is, and the array never becomes smaller, whatever calls follow.

A `GrowableSink` has the same length, the same capacity and the same bytes at every point. -/
theorem growth_keeps_every_byte (capacity : Int) (memory : Memory)
    (earlier later : List SinkCall) :
    ∃ sink grown middle copy taken after,
      effectAll earlier (.ofCapacity capacity) = sink
      ∧ effectAll later sink = grown
      ∧ performAll earlier (construct capacity memory) = some middle
      ∧ middle.length = ((written earlier).map List.length).sum
      ∧ middle.capacity = some sink.capacity
      ∧ max 1 middle.length ≤ sink.capacity
      ∧ middle.toBytes = some (copy, taken)
      ∧ taken.memory.read copy = some (written earlier).flatten
      ∧ performAll later taken = some after
      ∧ after.memory.read copy = some (written earlier).flatten
      ∧ after.capacity = some grown.capacity
      ∧ sink.capacity ≤ grown.capacity
      ∧ sink.length = middle.length
      ∧ sink.toBytes = (written earlier).flatten := by
  let sink := effectAll earlier (.ofCapacity capacity)
  have holds : sink.toBytes = (written earlier).flatten :=
    SinkCall.toBytes_effectAll earlier (.ofCapacity capacity)
  obtain ⟨middle, performed, shows, -⟩ :=
    SinkCall.exists_performAll (shows_ofCapacity capacity memory) earlier
  obtain ⟨copy, taken, handedOut, apart, shown, -⟩ := exists_toBytes shows
  obtain ⟨after, performedLater, showsLater, spared⟩ := SinkCall.exists_performAll shown later
  obtain ⟨-, stays⟩ := spared copy sink.toBytes apart
  have counted : middle.length = sink.toBytes.length := shows.length_eq
  have room : sink.toBytes.length ≤ sink.capacity := by
    rw [← GrowableSink.length_eq]
    exact sink.size_le_capacity
  rw [holds] at stays counted
  refine ⟨sink, effectAll later sink, middle, copy, taken, after, rfl, rfl, performed, ?_,
    shows.capacity_eq, ?_, handedOut, ?_, performedLater, stays, showsLater.capacity_eq,
    SinkCall.capacity_le_effectAll later sink, ?_, holds⟩
  · rw [counted, List.length_flatten]
  · rw [counted, ← holds]
    exact Nat.max_le.mpr ⟨sink.capacity_pos, room⟩
  · rw [← holds]
    exact apart.2
  · rw [GrowableSink.length_eq, holds, counted]

/-- Three bytes do not fit the one place that there is at first. They are written to an array of
four, and handed out in a third one. -/
example :
    (performAll [.write [1, 2, 3], .toBytes] (construct (-5) ⟨[]⟩)).map (·.memory.arrays)
      = some [[0], [1, 2, 3, 0], [1, 2, 3]] := by
  cbv

end StoredSink

end PeerWire
