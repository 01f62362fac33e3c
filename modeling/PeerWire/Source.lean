import PeerWire.Fault
import PeerWire.Scalar

/-!
# Byte sources

A source is asked for at most a number of bytes. It puts bytes at the front of
the room it is given and says how many; zero means that it is exhausted, and it
may raise something instead. A source need not be honest: the count it reports
and the bytes it puts are apart. Two sources are given, a cursor over a byte
string and one that follows a script.
-/

set_option autoImplicit false

namespace PeerWire

/-- What one read of a source brings: the bytes put, and the count reported. -/
structure Delivery where
  bytes : Bytes
  count : Int

namespace Delivery

/-- The delivery that reports what it puts. -/
def honest (bytes : Bytes) : Delivery :=
  ⟨bytes, bytes.length⟩

/-- Whether the count reported is that of the bytes put. -/
def isBacked (delivery : Delivery) : Bool :=
  delivery.count = delivery.bytes.length

@[simp] theorem isBacked_honest (bytes : Bytes) : (honest bytes).isBacked = true := by
  simp only [isBacked, honest, decide_true]

end Delivery

/-- Anything that bytes can be read from; `read` is given the room there is. -/
class ByteSource (σ : Type) where
  read : Nat → σ → Except Thrown Delivery × σ

/-! ## A cursor over a byte string -/

/-- A byte string with a position in it, and the bytes from there on. -/
structure Cursor where
  buffer : Bytes
  offset : Nat
  rest : Bytes
  offset_le : offset ≤ buffer.length
  rest_eq : rest = buffer.drop offset

namespace Cursor

/-- The cursor at the front of a byte string. -/
def ofBytes (buffer : Bytes) : Cursor :=
  ⟨buffer, 0, buffer, Nat.zero_le _, rfl⟩

/-- The cursor at a start offset, which must be a position in the byte string. -/
def ofBuffer (buffer : Bytes) (offset : Scalar) : Except Fault Cursor :=
  match h : offset.position? buffer.length with
  | some position =>
    .ok ⟨buffer, position, buffer.drop position, Scalar.le_of_position? h, rfl⟩
  | none => .error .badOffset

/-- The number of bytes not read yet. -/
def remaining (cursor : Cursor) : Nat :=
  cursor.buffer.length - cursor.offset

/-- Delivers as many of the remaining bytes as there is room for. -/
def read (room : Nat) (cursor : Cursor) : Except Thrown Delivery × Cursor :=
  let front := cursor.rest.take room
  (.ok (.honest front),
    { buffer := cursor.buffer
      offset := cursor.offset + front.length
      rest := cursor.rest.drop room
      offset_le := by
        have start := cursor.offset_le
        simp only [front, cursor.rest_eq, List.length_take, List.length_drop]
        omega
      rest_eq := by
        simp only [front, cursor.rest_eq, List.length_take, List.length_drop, List.drop_drop]
        by_cases fits : room ≤ cursor.buffer.length - cursor.offset
        · rw [Nat.min_eq_left fits]
        · rw [Nat.min_eq_right (by omega), List.drop_of_length_le (by omega),
            List.drop_of_length_le (by omega)] })

instance : ByteSource Cursor := ⟨read⟩

end Cursor

/-! ## A source that follows a script -/

/-- What a scripted source does when it is read. -/
inductive SourceStep where
  /-- Delivers bytes; what does not fit stays for the next read. -/
  | deliver (bytes : Bytes)
  /-- Reports a count and puts nothing. -/
  | claim (count : Int)
  | refuse (cause : Thrown)

/-- The steps ahead. A source whose script has run out is exhausted. -/
structure ScriptedSource where
  script : List SourceStep

namespace ScriptedSource

/-- Takes the next step of the script. -/
def read (room : Nat) (source : ScriptedSource) : Except Thrown Delivery × ScriptedSource :=
  match source.script with
  | [] => (.ok (.honest []), source)
  | .deliver bytes :: more =>
    let later := if bytes.length ≤ room then more else .deliver (bytes.drop room) :: more
    (.ok (.honest (bytes.take room)), ⟨later⟩)
  | .claim count :: more => (.ok ⟨[], count⟩, ⟨more⟩)
  | .refuse cause :: more => (.error cause, ⟨more⟩)

instance : ByteSource ScriptedSource := ⟨read⟩

end ScriptedSource

end PeerWire
