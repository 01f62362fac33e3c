import PeerWire.Codec

/-!
# Variable-length integers

A magnitude of up to 64 bits takes one, three, five or nine bytes: the byte itself
below `0xfd`, and otherwise a marker and two, four or eight bytes in little-endian
order. Only the shortest form of a magnitude is read; a longer one would give one
value two encodings.
-/

set_option autoImplicit false

namespace PeerWire

/-- A 64-bit magnitude. -/
structure VarInt where
  value : UInt64
  deriving DecidableEq

namespace VarInt

def marker16 : UInt8 := 0xfd
def marker32 : UInt8 := 0xfe
def marker64 : UInt8 := 0xff

/-- The magnitude of an unlimited integer. -/
def ofInt (value : Int) : Except Fault VarInt :=
  if isUnsigned64 value then .ok ⟨UInt64.ofNat value.toNat⟩
  else .error (.varIntOutOfRange value)

/-- The magnitude of a number, which must be a safe integer. -/
def ofNumber (value : Number) : Except Fault VarInt :=
  if value.isSafe then ofInt value.truncate else .error (.unsafeVarInt value)

/-- The magnitude of a number or an unlimited integer, where one is given. -/
def ofScalar? : Scalar → Option (Except Fault VarInt)
  | .number value => some (ofNumber value)
  | .integer value => some (ofInt value)
  | _ => none

/-- The magnitude as a number, if it is a safe integer. -/
def toNumber (varInt : VarInt) : Except Fault Number :=
  if varInt.value.toNat ≤ Number.maxSafe then .ok (.int varInt.value.toNat)
  else .error (.varIntTooLarge varInt.value)

/-- The length of the shortest form. -/
def encodedLength (varInt : VarInt) : Nat :=
  let value := varInt.value.toNat
  if value < 0xfd then 1
  else if value ≤ 0xffff then 3
  else if value ≤ 0xffffffff then 5
  else 9

/-- The shortest form. -/
def toBytes (varInt : VarInt) : Bytes :=
  let value := varInt.value.toNat
  if value < 0xfd then Bytes.ofNat 1 value
  else if value ≤ 0xffff then marker16 :: Bytes.ofNat 2 value
  else if value ≤ 0xffffffff then marker32 :: Bytes.ofNat 4 value
  else marker64 :: Bytes.ofNat 8 value

/-- The decimal text of the magnitude. -/
def toText (varInt : VarInt) : Text :=
  .ofNat varInt.value.toNat

/-- Writes the shortest form of a magnitude that is still to be checked. -/
def emit (magnitude : Except Fault VarInt) : Emission :=
  .ofExcept magnitude fun varInt => .chunk varInt.toBytes

/-- Reads the bytes behind a marker. A value that a shorter form can hold is
rejected after its bytes have been taken. -/
def decodeWide (width shorter : Nat) : Decoder VarInt :=
  .take width fun bytes =>
    if bytes.toNat ≤ shorter then .reject .nonMinimalVarInt
    else .done ⟨UInt64.ofNat bytes.toNat⟩

/-- Reads one magnitude in its shortest form. -/
def decode : Decoder VarInt :=
  .take 1 fun bytes =>
    let first := bytes.headD 0
    if first = marker64 then decodeWide 8 0xffffffff
    else if first = marker32 then decodeWide 4 0xffff
    else if first = marker16 then decodeWide 2 0xfc
    else .done ⟨UInt64.ofNat first.toNat⟩

/-- The codec of magnitudes. -/
def codec : Codec VarInt where
  elementSize := .finite 8
  encode varInt := .chunk varInt.toBytes
  decode := decode

end VarInt

end PeerWire
