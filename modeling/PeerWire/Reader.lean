import PeerWire.Failure
import PeerWire.Source

/-!
# Readers

A reader fills a target of fixed size from a source, however the source cuts its
bytes, and counts what it has taken. It stops when the source raises something,
or reports no bytes while some are missing; what the source had put by then stays
in the target and in the count. A fresh target is blank, and blank room is not
spelled out: a room may hold fewer bytes than it has places for, and zeros stand
behind them.

The count is exact while the source puts the bytes it reports. Once a source has
reported a count that no bytes back up, the total is a number like any other, and
is rounded when it grows beyond `2 ^ 53`.
-/

set_option autoImplicit false

namespace PeerWire

/-- A source with the number of bytes taken from it, and whether every count so
far was backed up by bytes. -/
structure Reader (σ : Type) where
  source : σ
  consumed : Nat
  backed : Bool

/-- What filling a target comes to: whether it was filled, the target, and the
reader afterwards. -/
structure Filling (σ : Type) where
  outcome : Except ConsensusError Unit
  target : Bytes
  reader : Reader σ

namespace Reader

variable {σ : Type}

/-- The reader that has taken nothing yet. -/
def ofSource (source : σ) : Reader σ :=
  ⟨source, 0, true⟩

/-- The reader after a delivery that left the source in a given state. -/
def advance (reader : Reader σ) (source : σ) (delivery : Delivery) : Reader σ :=
  let total := reader.consumed + delivery.count.toNat
  let backed := reader.backed && delivery.isBacked
  ⟨source, if backed then total else Number.roundNat total, backed⟩

/-- Puts bytes over the front of a room of `places` places; what exceeds the room
is lost. -/
def overlay (places : Nat) (bytes room : Bytes) : Bytes :=
  (bytes ++ room.drop bytes.length).take places

/-- The first `count` places of a room. -/
def front (count : Nat) (room : Bytes) : Bytes :=
  (room.take count).rightpad count 0

theorem front_eq_take {count : Nat} {room : Bytes} (held : count ≤ room.length) :
    front count room = room.take count := by
  simp only [front, List.rightpad, List.length_take, Nat.min_eq_left held, Nat.sub_self,
    List.replicate_zero, List.append_nil]

variable [ByteSource σ]

/-- Fills the room behind the part of a target that is filled already; the room
has `missing` places. -/
def fillFrom : (missing : Nat) → (filled room : Bytes) → Reader σ → Filling σ
  | 0, filled, room, reader => ⟨.ok (), filled ++ room, reader⟩
  | missing + 1, filled, room, reader =>
    match ByteSource.read (missing + 1) reader.source with
    | (.error cause, source) =>
      ⟨.error (.io (.raised cause)), filled ++ room, { reader with source }⟩
    | (.ok delivery, source) =>
      let laid := overlay (missing + 1) delivery.bytes room
      if delivery.count ≤ 0 then
        ⟨.error (.io (.exhausted (filled.length + (missing + 1)) filled.length)),
          filled ++ laid, { reader with source }⟩
      else
        let count := delivery.count.toNat
        fillFrom (missing + 1 - count) (filled ++ front (min count (missing + 1)) laid)
          (laid.drop count) (reader.advance source delivery)
termination_by missing => missing
decreasing_by omega

/-- Fills a target completely, or says why it cannot be filled. -/
def readSlice (target : Bytes) (reader : Reader σ) : Filling σ :=
  reader.fillFrom target.length [] target

/-- Reads exactly a number of bytes. -/
def readBytes (count : Nat) (reader : Reader σ) : Except ConsensusError Bytes × Reader σ :=
  let filling := reader.fillFrom count [] []
  match filling.outcome with
  | .ok () => (.ok filling.target, filling.reader)
  | .error error => (.error error, filling.reader)

end Reader

end PeerWire
