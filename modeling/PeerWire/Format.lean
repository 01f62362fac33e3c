import PeerWire.Field
import PeerWire.RawMessage

/-!
# Formats

Formats as data. A format is a leaf with a meaning of its own, or is put together
from formats: a sequence, a pair, or a record of named fields. A format
determines a type of values and a codec for it. A record is a chain of pairs on
the wire; its names are nowhere in its bytes, but say what becomes of a value that
was read.
-/

set_option autoImplicit false

namespace PeerWire

mutual

/-- What can be written and read. -/
inductive Format where
  | u8
  | u16
  | u32
  | u64
  | i8
  | i16
  | i32
  | i64
  | u16Network
  /-- A truth value, in the usual sense or inverted. -/
  | truth (inverted : Bool)
  | varInt
  | fixedBytes (length : Nat)
  | varBytes
  | varString
  | commandString
  | checkedData
  | network
  | serviceFlags
  | inventoryType
  | rejectReason
  | address
  | inventory
  | inventoryList
  | versionMessage
  | reject
  | rawMessage
  /-- A format that cannot be used: writing and reading end in given faults. -/
  | broken (size : Nat) (onEncode onDecode : Fault)
  | vector (element : Format)
  | pair (first second : Format)
  | record (fields : Fields)

/-- The fields of a record, in the order of the wire. -/
inductive Fields where
  | nil
  | cons (name : FieldName) (format : Format) (rest : Fields)

end

instance : Inhabited Format := ⟨.u8⟩

/-! ## Values -/

/-- Whether the values of a format are objects. The others are numbers, truth values, texts
and members of enumerations. -/
def Format.isObject : Format → Bool
  | .varInt | .fixedBytes _ | .varBytes | .checkedData | .serviceFlags => true
  | .address | .inventory | .inventoryList | .versionMessage | .reject | .rawMessage => true
  | .vector _ | .pair _ _ | .record _ => true
  | .u8 | .u16 | .u32 | .u64 | .i8 | .i16 | .i32 | .i64 | .u16Network | .truth _ => false
  | .varString | .commandString | .network | .inventoryType | .rejectReason | .broken .. => false

mutual

/-- The type of a format's values. -/
@[reducible] def Format.Val : Format → Type
  | .u8 | .u16 | .u32 | .i8 | .i16 | .i32 | .u16Network => Number
  | .u64 | .i64 => Int
  | .truth _ => Bool
  | .varInt => VarInt
  | .fixedBytes _ | .varBytes | .checkedData => Bytes
  | .varString | .commandString => Text
  | .network => Network
  | .serviceFlags => ServiceFlags
  | .inventoryType => InventoryType
  | .rejectReason => RejectReason
  | .address => Address
  | .inventory => Inventory
  | .inventoryList => List Inventory
  | .versionMessage => VersionMessage
  | .reject => Reject
  | .rawMessage => RawMessage
  | .broken .. => Unit
  | .vector element => List element.Val
  | .pair first second => first.Val × second.Val
  | .record fields => fields.Val

/-- The type of a record's values: what it holds for each field, in order. -/
@[reducible] def Fields.Val : Fields → Type
  | .nil => Unit
  | .cons name format rest => name.Holding format.isObject format.Val × rest.Val

end

/-- The text of an object that has no other. -/
def objectText : Text := "[object Object]"

/-- What the encoder of a format takes the prototype that all objects share for, if the
values of the format are no objects: it is true, it has a text, and it is no number and no
member of an enumeration. -/
def Format.stray : (format : Format) → format.isObject = false → Except Fault format.Val
  | .u8, _ | .rejectReason, _ => .error (.notNumeric objectText false 8)
  | .u16, _ | .u16Network, _ => .error (.notNumeric objectText false 16)
  | .u32, _ | .inventoryType, _ => .error (.notNumeric objectText false 32)
  | .u64, _ => .error (.notNumeric objectText false 64)
  | .i8, _ => .error (.notNumeric objectText true 8)
  | .i16, _ => .error (.notNumeric objectText true 16)
  | .i32, _ => .error (.notNumeric objectText true 32)
  | .i64, _ => .error (.notNumeric objectText true 64)
  | .truth _, _ => .ok true
  | .varString, _ | .commandString, _ => .ok objectText
  | .network, _ => .error (.notNumeric "undefined" false 32)
  | .broken .., _ => .ok ()

/-! ## Codecs -/

mutual

/-- The codec of a format. -/
def Format.codec : (format : Format) → Codec format.Val
  | .u8 => Codec.u8
  | .u16 => Codec.u16
  | .u32 => Codec.u32
  | .u64 => Codec.u64
  | .i8 => Codec.i8
  | .i16 => Codec.i16
  | .i32 => Codec.i32
  | .i64 => Codec.i64
  | .u16Network => Codec.u16Network
  | .truth false => Codec.bool
  | .truth true => Codec.bool.map not not
  | .varInt => VarInt.codec
  | .fixedBytes length => Codec.fixedBytes length
  | .varBytes => Codec.varBytes
  | .varString => Codec.varString
  | .commandString => Command.codec
  | .checkedData => Codec.checkedData
  | .network => Network.codec
  | .serviceFlags => ServiceFlags.codec
  | .inventoryType => InventoryType.codec
  | .rejectReason => RejectReason.codec
  | .address => Address.codec
  | .inventory => Inventory.codec
  | .inventoryList => Inventory.listCodec
  | .versionMessage => VersionMessage.codec
  | .reject => Reject.codec
  | .rawMessage => RawMessage.codec
  | .broken size onEncode onDecode => Codec.broken size onEncode onDecode
  | .vector element => element.codec.vector
  | .pair first second => first.codec.pair second.codec
  | .record fields => fields.codecBehind (.finite 0)

/-- The codec of fields, one after the other, behind fields of the size `earlier`. Sizes
are added up from the first field to the last. -/
def Fields.codecBehind : (fields : Fields) → (earlier : Size) → Codec fields.Val
  | .nil, earlier => { Codec.unit with elementSize := earlier }
  | .cons name format rest, earlier =>
    let first := format.codec
    let others := rest.codecBehind (earlier + first.elementSize)
    { (first.under format.stray name).pair others with elementSize := others.elementSize }

end

/-! ## Records by entries -/

namespace Fields

/-- The names of a record's fields, in order. -/
def names : Fields → List FieldName
  | .nil => []
  | .cons name _ rest => name :: rest.names

/-- What is held for one of a record's fields. -/
@[reducible] def Entry : Fields → Type
  | .nil => Empty
  | .cons name format rest => name.Holding format.isObject format.Val ⊕ rest.Entry

/-- The entries of a record's value, in the order of the wire. -/
def entries : (fields : Fields) → fields.Val → List fields.Entry
  | .nil, _ => []
  | .cons _ _ rest, (value, others) => .inl value :: (rest.entries others).map .inr

/-- The record's value that entries in any order make up, if every field has one.
Of several entries for a field the last one counts. -/
def assemble : (fields : Fields) → List fields.Entry → Option fields.Val
  | .nil, _ => some ()
  | .cons _ _ rest, given => do
    let value ← (given.filterMap Sum.getLeft?).getLast?
    let others ← rest.assemble (given.filterMap Sum.getRight?)
    some (value, others)

/-- Right-hand entries are found again among entries of either side. -/
theorem filterMap_getRight?_map_inr {α β : Type} (values : List β) :
    (values.map (Sum.inr : β → α ⊕ β)).filterMap Sum.getRight? = values := by
  simp [List.filterMap_map, Function.comp_def]

end Fields

end PeerWire
