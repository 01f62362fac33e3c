import PeerWire.Codec

/-!
# Networks

The networks that messages belong to, each known on the wire by its magic, and
the version of the protocol that they speak.
-/

set_option autoImplicit false

namespace PeerWire

/-- The protocol version that handshakes advertise. -/
def protocolVersion : Nat := 70001

/-- A network of peers. -/
inductive Network where
  | bitcoin
  | testnet
  | regtest
  deriving DecidableEq

namespace Network

/-- Every network. -/
def all : List Network := [bitcoin, testnet, regtest]

/-- The name of a network. -/
def name : Network → String
  | bitcoin => "bitcoin"
  | testnet => "testnet"
  | regtest => "regtest"

/-- The magic of a network. -/
def magic : Network → Nat
  | bitcoin => 0xd9b4bef9
  | testnet => 0x0709110b
  | regtest => 0xdab5bffa

/-- The network of a magic. -/
def ofMagic? (magic : Number) : Option Network :=
  all.find? fun network => Number.int network.magic = magic

/-- The network of a name. -/
def ofName? (name : Text) : Option Network :=
  all.find? fun network => Text.ofString network.name = name

/-- The network of a name, which must be one. -/
def ofName (name : Text) : Except Fault Network :=
  match ofName? name with
  | some network => .ok network
  | none => .error (.unknownNetwork name)

/-- Whether a scalar is the name of a network. -/
def isName : Scalar → Bool
  | .text name => (ofName? name).isSome
  | _ => false

/-- The network of a scalar that is a magic. -/
def ofMagicScalar? : Scalar → Option Network
  | .number magic => ofMagic? magic
  | _ => none

/-- A network, on the wire as its magic. -/
def codec : Codec Network :=
  Codec.u32.refine (fun network => .int network.magic) fun magic =>
    match ofMagic? magic with
    | some network => .ok network
    | none => .error (.unknownNetworkMagic magic)

end Network

end PeerWire
