import PeerWire.Sha256
import PeerWire.Text.Utf8
import PeerWire.VarInt

/-!
# Byte strings, sequences and texts

Formats whose length is part of the type or goes in front of the contents. No
length prefix makes a reader set aside more than four million bytes: the count is
checked, at the size each element is charged, before anything is allocated.
Writing does not check the ceiling.
-/

set_option autoImplicit false

attribute [local instance (high)] instPowNat

namespace PeerWire

/-- The largest number of bytes that one sequence may claim when it is read. -/
def maxSequenceSize : Nat := 4000000

/-- Checks a count of elements of so many bytes against the ceiling. An element is
charged at least one byte, and the charge must fit 64 bits. -/
def withinCeiling (count bytes : Nat) : Except ConsensusError Nat :=
  let requested := count * max 1 bytes
  if maxUnsigned64 < requested then .error (.parseFailed .invalidLength)
  else if maxSequenceSize < requested then
    .error (.oversizedAllocation requested (.int maxSequenceSize))
  else .ok count

/-- Checks a count of elements against the ceiling. The charge is worked out in
integers, and there is none for an infinite size: that is a fault, whatever the
count. -/
def checkAllocation (count : Nat) : (size : Size) → Except Failure Nat
  | .finite bytes => (withinCeiling count bytes).mapError .consensus
  | .infinite => .error (.fault .infiniteSize)

/-- A byte string, if its length is the number asked for. -/
def Bytes.exactly (length : Number) (bytes : Bytes) : Except Fault Bytes :=
  if .int bytes.length = length then .ok bytes else .error (.wrongWidth length bytes.length)

namespace Codec

variable {α : Type}

/-- Byte strings of one length, with nothing in front. -/
def fixedBytes (length : Nat) : Codec Bytes where
  elementSize := length
  encode value := .ofExcept (value.exactly (.int length)) .chunk
  decode := .bytes length

/-- Reads a count and checks it at the size that an element is charged. -/
def decodeCount (elementSize : Size) : Decoder Nat :=
  VarInt.decode.bind fun count => .ofResult (checkAllocation count.value.toNat elementSize)

/-- A count of elements and then the elements. -/
def vector (element : Codec α) : Codec (List α) where
  elementSize := handleSize
  encode values := do
    let length ← VarInt.emit (VarInt.ofNumber (.int values.length))
    Emission.addUp element.encode values length
  decode := (decodeCount element.elementSize).bind fun count =>
    .reserve count element.elementSize (.times count element.decode)

/-- A length and then the bytes. -/
def varBytes : Codec Bytes where
  elementSize := handleSize
  encode value := do
    let length ← VarInt.emit (VarInt.ofNumber (.int value.length))
    let contents ← Emission.chunk value
    return length + contents
  decode := (decodeCount (.finite 1)).bind .bytes

/-- A length and then a text in UTF-8. Neither a text without a UTF-8 form nor
bytes that are not UTF-8 are replaced by anything. -/
def varString : Codec Text where
  elementSize := handleSize
  encode value :=
    if value.isWellFormed then varBytes.encode value.toUtf8
    else .fail (.unpairedSurrogate value)
  decode := varBytes.decode.bind fun bytes =>
    match Text.ofUtf8? bytes with
    | some text => .done text
    | none => .reject (.parseFailed .notUtf8)

/-- A length in four bytes, a checksum and then the bytes. -/
def checkedData : Codec Bytes where
  elementSize := handleSize
  encode value := do
    let length ← u32.encode (.int value.length)
    let check ← Emission.chunk (checksum value)
    let contents ← Emission.chunk value
    return length + check + contents
  decode :=
    .take 4 fun length =>
      (Decoder.ofResult (checkAllocation length.toNat (.finite 1))).bind fun length =>
        .take 4 fun claimed =>
          .take length fun data =>
            let computed := checksum data
            if computed = claimed then .done data
            else .reject (.invalidChecksum computed claimed)

end Codec

end PeerWire
