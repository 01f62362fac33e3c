import PeerWire.ServiceFlags

/-!
# Peer addresses

The address of a peer: the services it offers, eight groups of sixteen bits, and a
port. The groups and the port are in network byte order, unlike everything else on
the wire. An IPv4 host is an address whose first six groups are five zeros and
`0xffff`; its text is a dotted quad, and that of any other address is its groups
in hexadecimal.
-/

set_option autoImplicit false

attribute [local instance (high)] instPowNat

namespace PeerWire

/-- A peer and what it offers. -/
structure Address where
  services : ServiceFlags
  groups : List Number
  port : Number
  deriving DecidableEq

namespace Address

/-- The number of groups of an address. -/
def groupCount : Nat := 8

/-- The groups in front of an IPv4 host. -/
def ipv4Front : List Number := [0, 0, 0, 0, 0, 0xffff]

/-- The groups of an address, each on the wire as two bytes. -/
def groupsCodec : Codec (List Number) where
  elementSize := .finite (2 * groupCount)
  encode groups :=
    if groups.length = groupCount then Emission.addUp Codec.u16Network.encode groups 0
    else .fail (.wrongGroupCount groups.length)
  decode := .times groupCount Codec.u16Network.decode

/-- An address: services, groups, port. -/
def codec : Codec Address :=
  (ServiceFlags.codec.pair (groupsCodec.pair Codec.u16Network)).map
    (fun address => (address.services, address.groups, address.port))
    fun (services, groups, port) => ⟨services, groups, port⟩

/-- The value of a part of a dotted quad: one to three decimal digits that make at
most 255. -/
def octet? (part : Text) : Option Nat :=
  let digits := part.units.map UInt16.toNat
  let value := digits.foldl (fun value digit => 10 * value + (digit - 0x30)) 0
  if (1 ≤ digits.length ∧ digits.length ≤ 3) ∧ digits.all (fun d => 0x30 ≤ d && d ≤ 0x39)
      ∧ value ≤ 255 then
    some value
  else none

/-- The groups of a dotted quad. -/
def ipv4Groups? (host : Text) : Option (List Number) :=
  match (host.splitOn 0x2e).map octet? with
  | [some a, some b, some c, some d] =>
    some (ipv4Front ++ [.int (256 * a + b : Nat), .int (256 * c + d : Nat)])
  | _ => none

/-- The address of an IPv4 peer. -/
def ofIpv4 (services : ServiceFlags) (host : Text) (port : Number) : Except Fault Address :=
  match ipv4Groups? host with
  | some groups => .ok ⟨services, groups, port⟩
  | none => .error (.notIpv4 host)

/-- The two parts of a quad that a group holds, read as 32 bits in two's
complement. -/
def octets (group : Number) : List Int :=
  let word := group.truncate.bmod (2 ^ (32 : Nat))
  [word / 256, word % 256]

/-- The text of the host that groups stand for; a missing group is zero. -/
def hostText (groups : List Number) : Text :=
  if groups.take ipv4Front.length = ipv4Front then
    .join "." ((octets (groups.getD 6 0) ++ octets (groups.getD 7 0)).map .ofInt)
  else .join ":" (groups.map Number.toHexText)

end Address

end PeerWire
