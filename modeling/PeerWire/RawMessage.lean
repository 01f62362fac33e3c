import PeerWire.Message

/-!
# Raw messages

A message as it travels: the magic of the network, the command in its field of
twelve bytes, and the payload behind its length and checksum. A stream of bytes is
read one raw message after the other.
-/

set_option autoImplicit false

namespace PeerWire

/-- A message for a network. -/
structure RawMessage where
  magic : Number
  payload : NetworkMessage
  deriving DecidableEq

namespace RawMessage

/-- The raw message of a message for a network. -/
def ofMessage (network : Network) (payload : NetworkMessage) : RawMessage :=
  ⟨.int network.magic, payload⟩

/-- Reads what follows the magic. -/
def decodeBehind (magic : Number) : Decoder RawMessage :=
  Command.codec.decode.bind fun name =>
    Codec.checkedData.decode.bind fun data =>
      (Decoder.ofResult (NetworkMessage.decodePayload name data)).bind fun payload =>
        .done ⟨magic, payload⟩

/-- A raw message of any network. The payload is put together before any of it is
written. -/
def codec : Codec RawMessage where
  elementSize := .finite (4 + Command.fieldSize) + Codec.checkedData.elementSize
  encode raw := do
    let magic ← Codec.u32.encode raw.magic
    let command ← Command.codec.encode raw.payload.command.name
    let payload ← Emission.ofExcept raw.payload.encodePayload Codec.checkedData.encode
    return magic + command + payload
  decode := Codec.u32.decode.bind decodeBehind

/-- Reads a raw message of one network; the magic is checked before anything else
is read. -/
def decoderFor (network : Network) : Decoder RawMessage :=
  Codec.u32.decode.bind fun magic =>
    if magic = .int network.magic then decodeBehind magic
    else .reject (.unexpectedNetworkMagic (.int network.magic) magic)

/-- Reads one raw message from the front of a byte string, which may hold more. -/
def read (network : Network) (bytes : Bytes) : Except Failure (Decoded RawMessage) :=
  (decoderFor network).deserializePartial bytes

/-! ## Streams -/

/-- What reading a stream comes to: the messages in order, the failure that ended
it, if any, and the bytes not read. -/
structure Stream where
  messages : List (Decoded RawMessage)
  failure? : Option Failure
  rest : Bytes

/-- Reads raw messages behind those read already, until nothing is left or one
fails. A message that takes no bytes would end the stream; none does. -/
def readBehind (network : Network) : List (Decoded RawMessage) → Bytes → Stream
  | earlier, [] => ⟨earlier.reverse, none, []⟩
  | earlier, byte :: more =>
    match read network (byte :: more) with
    | .error failure => ⟨earlier.reverse, some failure, byte :: more⟩
    | .ok decoded =>
      match decoded.consumed with
      | 0 => ⟨(decoded :: earlier).reverse, none, byte :: more⟩
      | taken + 1 => readBehind network (decoded :: earlier) (more.drop taken)
termination_by _ bytes => bytes.length
decreasing_by
  rw [List.length_drop, List.length_cons]
  omega

/-- Reads raw messages from the front of a byte string until nothing is left or
one fails. -/
def readStream (network : Network) (bytes : Bytes) : Stream :=
  readBehind network [] bytes

end RawMessage

end PeerWire
