import PeerWire.Codec

/-!
# Service flags

The services that a peer offers, as a mask of 64 bits. Five bits have names; the
others are kept as they are. The text of a mask lists the named bits that are set,
in order, and the remaining bits as one hexadecimal number.
-/

set_option autoImplicit false

namespace PeerWire

/-- A mask of services. -/
structure ServiceFlags where
  bits : UInt64
  deriving DecidableEq

namespace ServiceFlags

/-- No service. -/
def none : ServiceFlags := ⟨0⟩

/-- Serves the full block chain. -/
def network : ServiceFlags := ⟨1⟩

/-- Answers requests for unspent outputs. -/
def getUtxo : ServiceFlags := ⟨2⟩

/-- Supports connections filtered by bloom filters. -/
def bloom : ServiceFlags := ⟨4⟩

/-- Serves witness data. -/
def witness : ServiceFlags := ⟨8⟩

/-- Serves the last 288 blocks. -/
def networkLimited : ServiceFlags := ⟨1024⟩

/-- The masks of one named bit, in the order in which texts list them. -/
def named : List (String × ServiceFlags) :=
  [("NETWORK", network), ("GETUTXO", getUtxo), ("BLOOM", bloom), ("WITNESS", witness),
    ("NETWORK_LIMITED", networkLimited)]

/-- The mask of an integer, which must fit 64 bits. -/
def ofInt (bits : Int) : Except Fault ServiceFlags :=
  if isUnsigned64 bits then .ok ⟨UInt64.ofNat bits.toNat⟩
  else .error (.serviceFlagsOutOfRange bits)

/-- Whether every service of the second mask is in the first. -/
def has (flags other : ServiceFlags) : Bool :=
  flags.bits &&& other.bits = other.bits

/-- The services of either mask. -/
def add (flags other : ServiceFlags) : ServiceFlags :=
  ⟨flags.bits ||| other.bits⟩

/-- The services of the first mask that are not in the second. -/
def remove (flags other : ServiceFlags) : ServiceFlags :=
  ⟨flags.bits &&& ~~~other.bits⟩

/-- The mask without the bits that have names. -/
def unnamed (flags : ServiceFlags) : ServiceFlags :=
  named.foldl (fun rest entry => rest.remove entry.2) flags

/-- What the text of a mask lists. -/
def items (flags : ServiceFlags) : List Text :=
  let names := (named.filter fun entry => flags.has entry.2).map fun entry => Text.ofString entry.1
  let rest := flags.unnamed
  if rest = none then names
  else names ++ [Text.ofString "0x" ++ .ofNatHex rest.bits.toNat]

/-- The text of a mask. -/
def toText (flags : ServiceFlags) : Text :=
  let listed := if flags = none then [Text.ofString "NONE"] else flags.items
  .concat ["ServiceFlags(", .join "|" listed, ")"]

/-- A mask, on the wire as eight bytes. -/
def codec : Codec ServiceFlags :=
  Codec.u64.map (fun flags => (flags.bits.toNat : Int)) fun bits => ⟨UInt64.ofNat bits.toNat⟩

end ServiceFlags

end PeerWire
