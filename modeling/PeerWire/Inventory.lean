import PeerWire.Sequence

/-!
# Inventories

Objects announced or asked for: what kind of object, and its hash.
-/

set_option autoImplicit false

namespace PeerWire

/-- Kinds of objects. -/
inductive InventoryType where
  | error
  | transaction
  | block
  | filteredBlock
  | compactBlock
  | witnessTransaction
  | witnessBlock
  | witnessFilteredBlock
  deriving DecidableEq

namespace InventoryType

/-- Every kind, in the order of the codes. -/
def all : List InventoryType :=
  [error, transaction, block, filteredBlock, compactBlock, witnessTransaction, witnessBlock,
    witnessFilteredBlock]

/-- The name of a kind. -/
def name : InventoryType → String
  | error => "Error"
  | transaction => "Transaction"
  | block => "Block"
  | filteredBlock => "FilteredBlock"
  | compactBlock => "CompactBlock"
  | witnessTransaction => "WitnessTransaction"
  | witnessBlock => "WitnessBlock"
  | witnessFilteredBlock => "WitnessFilteredBlock"

/-- The code of a kind; witness kinds have the bit `2 ^ 30` set. -/
def code : InventoryType → Nat
  | error => 0
  | transaction => 1
  | block => 2
  | filteredBlock => 3
  | compactBlock => 4
  | witnessTransaction => 0x40000001
  | witnessBlock => 0x40000002
  | witnessFilteredBlock => 0x40000003

/-- The kind of a code. -/
def ofCode? (code : Number) : Option InventoryType :=
  all.find? fun kind => Number.int kind.code = code

/-- A kind, on the wire as its code. -/
def codec : Codec InventoryType :=
  Codec.u32.refine (fun kind => .int kind.code) fun code =>
    match ofCode? code with
    | some kind => .ok kind
    | none => .error (.unknownInventoryType code)

end InventoryType

/-- An object that a peer has or wants. -/
structure Inventory where
  kind : InventoryType
  hash : Bytes
  deriving DecidableEq

namespace Inventory

/-- An object: kind and hash. -/
def codec : Codec Inventory :=
  (InventoryType.codec.pair (Codec.fixedBytes 32)).map
    (fun item => (item.kind, item.hash)) fun (kind, hash) => ⟨kind, hash⟩

/-- Objects behind their count. -/
def listCodec : Codec (List Inventory) :=
  codec.vector

end Inventory

end PeerWire
