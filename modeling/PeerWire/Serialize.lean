import PeerWire.Codec
import PeerWire.Text.Hex

/-!
# Values to bytes and back

Serializing gathers what a codec emits in memory. Deserializing reads a value from
the front of a byte string: partially, leaving the rest alone, or completely, with
bytes left over counting as an error. A consensus error can be had as an outcome
rather than a failure; a fault never is an outcome.
-/

set_option autoImplicit false

namespace PeerWire

namespace Codec

variable {α : Type}

/-- The bytes of a value. -/
def serialize (codec : Codec α) (value : α) : Except Fault Bytes :=
  (codec.encode value).toExcept

/-- The bytes of a value in hexadecimal. -/
def serializeHex (codec : Codec α) (value : α) : Except Fault Text :=
  (codec.serialize value).map Bytes.toHex

/-- Writes the bytes of a value to a sink as one chunk, so that a sink that
refuses holds no part of them. -/
def encodeTo {σ : Type} [ByteSink σ] (codec : Codec α) (value : α) (sink : σ) :
    Except Failure Nat × σ :=
  (codec.encode value).gathered.deliver sink

end Codec

/-- A value, and how many bytes it was read from. -/
structure Decoded (α : Type) where
  value : α
  consumed : Nat
  deriving DecidableEq

/-- What an attempt to read a whole input comes to. -/
inductive DecodeOutcome (α : Type) where
  | ok (decoded : Decoded α)
  | error (error : ConsensusError)

namespace Decoder

variable {α : Type}

/-- Reads a value from the front of a byte string. -/
def deserializePartial (decoder : Decoder α) (bytes : Bytes) : Except Failure (Decoded α) :=
  match decoder.run (.ofSource (Cursor.ofBytes bytes)) with
  | (.ok value, reader) => .ok ⟨value, reader.consumed⟩
  | (.error failure, _) => .error failure

/-- Reads a value that spans a byte string. -/
def deserialize (decoder : Decoder α) (bytes : Bytes) : Except Failure α :=
  match decoder.deserializePartial bytes with
  | .ok ⟨value, consumed⟩ =>
    if consumed = bytes.length then .ok value
    else .error (.consensus (.parseFailed (.trailingBytes (bytes.length - consumed))))
  | .error failure => .error failure

/-- Reads a value that spans a byte string given in hexadecimal. -/
def deserializeHex (decoder : Decoder α) (hex : Text) : Except Failure α :=
  match Bytes.ofHex hex with
  | .ok bytes => decoder.deserialize bytes
  | .error problem => .error (.fault (.badHex problem))

/-- Reads a value that spans a byte string; a consensus error is an outcome. -/
def tryDeserialize (decoder : Decoder α) (bytes : Bytes) : Except Fault (DecodeOutcome α) :=
  match decoder.deserialize bytes with
  | .ok value => .ok (.ok ⟨value, bytes.length⟩)
  | .error (.consensus error) => .ok (.error error)
  | .error (.fault fault) => .error fault

end Decoder

end PeerWire
