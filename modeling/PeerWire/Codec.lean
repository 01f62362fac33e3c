import PeerWire.Decoder
import PeerWire.Emission
import PeerWire.Size

/-!
# Codecs

A codec writes the values of a type and reads them back. Its element size is what
one value counts for when a sequence of them is checked against the allocation
ceiling: the width on the wire where that is fixed, and the size of a handle
where it is not. A codec made of codecs adds up the counts that these return when
they write, and the sizes that they declare. Integers are checked against their
width before anything is written.
-/

set_option autoImplicit false

namespace PeerWire

/-- A format of the values of a type. -/
structure Codec (α : Type) where
  elementSize : Size
  encode : α → Emission
  decode : Decoder α

namespace Codec

variable {α β : Type}

/-- What a value held by reference is charged: a pointer, a length and a capacity. -/
def handleSize : Nat := 24

/-! ## Integers of fixed width -/

/-- Numbers of `width` bytes without a sign. -/
def unsigned (order : ByteOrder) (width : Nat) : Codec Number where
  elementSize := width
  encode value :=
    if value.isUnsigned (8 * width) then .chunk (order.write width value.truncate)
    else .fail (.notUnsigned value (8 * width))
  decode := .take width fun bytes => .done (.int (order.read bytes))

/-- Numbers of `width` bytes in two's complement. -/
def signed (order : ByteOrder) (width : Nat) : Codec Number where
  elementSize := width
  encode value :=
    if value.isSigned (8 * width) then .chunk (order.write width value.truncate)
    else .fail (.notSigned value (8 * width))
  decode := .take width fun bytes => .done (.int (order.readSigned bytes))

def u8 : Codec Number := unsigned .little 1
def u16 : Codec Number := unsigned .little 2
def u32 : Codec Number := unsigned .little 4
def i8 : Codec Number := signed .little 1
def i16 : Codec Number := signed .little 2
def i32 : Codec Number := signed .little 4

/-- A number of two bytes in network order. -/
def u16Network : Codec Number := unsigned .big 2

/-- Unlimited integers in eight bytes without a sign. -/
def u64 : Codec Int where
  elementSize := .finite 8
  encode value :=
    if isUnsigned64 value then .chunk (ByteOrder.little.write 8 value)
    else .fail (.notUnsigned64 value)
  decode := .take 8 fun bytes => .done (ByteOrder.little.read bytes)

/-- Unlimited integers in eight bytes in two's complement. -/
def i64 : Codec Int where
  elementSize := .finite 8
  encode value :=
    if isSigned64 value then .chunk (ByteOrder.little.write 8 value)
    else .fail (.notSigned64 value)
  decode := .take 8 fun bytes => .done (ByteOrder.little.readSigned bytes)

/-- One byte: one for true, zero for false; any byte but zero reads as true. -/
def bool : Codec Bool where
  elementSize := .finite 1
  encode value := .chunk [if value then 1 else 0]
  decode := .take 1 fun bytes => .done (bytes != [0])

/-! ## New codecs from old ones -/

/-- The codec of a type whose values stand for those of another; reading may
reject a value that stands for nothing. -/
def refine (inner : Codec β) (wire : α → β) (ofWire : β → Except ConsensusError α) :
    Codec α where
  elementSize := inner.elementSize
  encode value := inner.encode (wire value)
  decode := inner.decode.bind fun value => .ofExcept (ofWire value)

/-- The codec of a type whose values stand for those of another, one to one. -/
def map (inner : Codec β) (wire : α → β) (ofWire : β → α) : Codec α where
  elementSize := inner.elementSize
  encode value := inner.encode (wire value)
  decode := inner.decode.bind fun value => .done (ofWire value)

/-- Nothing at all on the wire. -/
def unit : Codec Unit where
  elementSize := .finite 0
  encode _ := .nothing
  decode := .done ()

/-- Two values back to back. -/
def pair (first : Codec α) (second : Codec β) : Codec (α × β) where
  elementSize := first.elementSize + second.elementSize
  encode value := do
    let front ← first.encode value.1
    let back ← second.encode value.2
    return front + back
  decode := first.decode.bind fun a => second.decode.bind fun b => .done (a, b)

/-- A codec that fails by given faults, whatever it is used for. -/
def broken (size : Nat) (onEncode onDecode : Fault) : Codec Unit where
  elementSize := size
  encode _ := .fail onEncode
  decode := .fail (.fault onDecode)

end Codec

end PeerWire
