import PeerWire.Address
import PeerWire.Command
import PeerWire.Network
import PeerWire.Sequence

/-!
# Handshakes and rejections

The message by which a peer introduces itself, and the one by which it turns a
message down.
-/

set_option autoImplicit false

namespace PeerWire

/-- How a peer introduces itself. -/
structure VersionMessage where
  /-- The protocol version of the sender. -/
  version : Number
  services : ServiceFlags
  /-- Seconds of Unix time when the message was sent. -/
  timestamp : Int
  receiver : Address
  sender : Address
  /-- A random number by which a peer knows a connection to itself. -/
  nonce : Int
  userAgent : Text
  /-- The height of the best chain that the sender knows. -/
  startHeight : Number
  /-- Whether the receiver should announce transactions. -/
  relay : Bool
  deriving DecidableEq

namespace VersionMessage

/-- An introduction at the current protocol version that asks for no relaying. -/
def greeting (services : ServiceFlags) (timestamp : Int) (receiver sender : Address)
    (nonce : Int) (userAgent : Text) (startHeight : Number) : VersionMessage where
  version := .int protocolVersion
  services := services
  timestamp := timestamp
  receiver := receiver
  sender := sender
  nonce := nonce
  userAgent := userAgent
  startHeight := startHeight
  relay := false

open Codec in
/-- An introduction: its fields in order. -/
def codec : Codec VersionMessage :=
  (u32.pair (ServiceFlags.codec.pair (i64.pair (Address.codec.pair (Address.codec.pair
    (u64.pair (varString.pair (i32.pair bool)))))))).map
    (fun m => (m.version, m.services, m.timestamp, m.receiver, m.sender, m.nonce, m.userAgent,
      m.startHeight, m.relay))
    fun (version, services, timestamp, receiver, sender, nonce, userAgent, startHeight, relay) =>
      ⟨version, services, timestamp, receiver, sender, nonce, userAgent, startHeight, relay⟩

end VersionMessage

/-- Why a message was turned down. -/
inductive RejectReason where
  | malformed
  | invalid
  | obsolete
  | duplicate
  | nonStandard
  | dust
  | fee
  | checkpoint
  deriving DecidableEq

namespace RejectReason

/-- Every reason, in the order of the codes. -/
def all : List RejectReason :=
  [malformed, invalid, obsolete, duplicate, nonStandard, dust, fee, checkpoint]

/-- The name of a reason. -/
def name : RejectReason → String
  | malformed => "Malformed"
  | invalid => "Invalid"
  | obsolete => "Obsolete"
  | duplicate => "Duplicate"
  | nonStandard => "NonStandard"
  | dust => "Dust"
  | fee => "Fee"
  | checkpoint => "Checkpoint"

/-- The code of a reason. -/
def code : RejectReason → Nat
  | malformed => 0x01
  | invalid => 0x10
  | obsolete => 0x11
  | duplicate => 0x12
  | nonStandard => 0x40
  | dust => 0x41
  | fee => 0x42
  | checkpoint => 0x43

/-- The reason of a code. -/
def ofCode? (code : Number) : Option RejectReason :=
  all.find? fun reason => Number.int reason.code = code

/-- A reason, on the wire as its code. -/
def codec : Codec RejectReason :=
  Codec.u8.refine (fun reason => .int reason.code) fun code =>
    match ofCode? code with
    | some reason => .ok reason
    | none => .error (.parseFailed .unknownRejectCode)

end RejectReason

/-- How a peer turns a message down. -/
structure Reject where
  /-- The command of the message. -/
  message : Text
  code : RejectReason
  reason : Text
  /-- The object that the message was about. -/
  hash : Bytes
  deriving DecidableEq

namespace Reject

/-- The command of a rejected message: a text that is written only if it is a
command name, and read as any text. -/
def messageCodec : Codec Text where
  elementSize := Codec.varString.elementSize
  encode message := .ofExcept (Command.checkName message) fun _ => Codec.varString.encode message
  decode := Codec.varString.decode

/-- A rejection: its fields in order. -/
def codec : Codec Reject :=
  (messageCodec.pair (RejectReason.codec.pair
    (Codec.varString.pair (Codec.fixedBytes 32)))).map
    (fun r => (r.message, r.code, r.reason, r.hash))
    fun (message, code, reason, hash) => ⟨message, code, reason, hash⟩

end Reject

end PeerWire
