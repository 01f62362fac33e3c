import PeerWire.Handshake
import PeerWire.Inventory
import PeerWire.Serialize

/-!
# Network messages

What peers say to each other: a command, and for most commands a payload. The
payload is a byte string of its own; reading it must use all of its bytes.
-/

set_option autoImplicit false

namespace PeerWire

/-- A message between peers. -/
inductive NetworkMessage where
  | version (introduction : VersionMessage)
  | verack
  /-- Peers, each with the time it was last seen. -/
  | addr (peers : List (Number × Address))
  | inv (items : List Inventory)
  | getdata (items : List Inventory)
  | notfound (items : List Inventory)
  | getaddr
  | ping (nonce : Int)
  | pong (nonce : Int)
  | sendheaders
  | reject (rejection : Reject)
  deriving DecidableEq

namespace NetworkMessage

/-- The command of a message. -/
def command : NetworkMessage → Command
  | version _ => .version
  | verack => .verack
  | addr _ => .addr
  | inv _ => .inv
  | getdata _ => .getdata
  | notfound _ => .notfound
  | getaddr => .getaddr
  | ping _ => .ping
  | pong _ => .pong
  | sendheaders => .sendheaders
  | reject _ => .reject

/-- Peers with times, behind their count. -/
def peersCodec : Codec (List (Number × Address)) :=
  (Codec.u32.pair Address.codec).vector

/-- The payload of a message. -/
def encodePayload : NetworkMessage → Except Fault Bytes
  | version introduction => VersionMessage.codec.serialize introduction
  | addr peers => peersCodec.serialize peers
  | inv items | getdata items | notfound items => Inventory.listCodec.serialize items
  | ping nonce | pong nonce => Codec.u64.serialize nonce
  | reject rejection => Reject.codec.serialize rejection
  | verack | getaddr | sendheaders => .ok []

/-- A message without payload, which must come with none. -/
def ofEmpty (message : NetworkMessage) (payload : Bytes) : Except Failure NetworkMessage :=
  if payload = [] then .ok message
  else .error (.consensus (.parseFailed (.unexpectedPayload message.command.name)))

/-- The message of a known command with a payload. -/
def ofPayload (command : Command) (payload : Bytes) : Except Failure NetworkMessage :=
  match command with
  | .version => (VersionMessage.codec.decode.deserialize payload).map version
  | .addr => (peersCodec.decode.deserialize payload).map addr
  | .inv => (Inventory.listCodec.decode.deserialize payload).map inv
  | .getdata => (Inventory.listCodec.decode.deserialize payload).map getdata
  | .notfound => (Inventory.listCodec.decode.deserialize payload).map notfound
  | .ping => (Codec.u64.decode.deserialize payload).map ping
  | .pong => (Codec.u64.decode.deserialize payload).map pong
  | .reject => (Reject.codec.decode.deserialize payload).map reject
  | .verack => ofEmpty verack payload
  | .getaddr => ofEmpty getaddr payload
  | .sendheaders => ofEmpty sendheaders payload

/-- The message of a command name with a payload. -/
def decodePayload (name : Text) (payload : Bytes) : Except Failure NetworkMessage :=
  match Command.ofName? name with
  | some command => ofPayload command payload
  | none => .error (.consensus (.unrecognizedCommand name))

end NetworkMessage

end PeerWire
