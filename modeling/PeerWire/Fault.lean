import PeerWire.Number.Numeral
import PeerWire.Text.Hex
import PeerWire.Text.Quoted

/-!
# Faults

A fault is a breach of contract by the caller: a value outside the domain of the
operation it was handed to, or an operation at the wrong moment. Faults are told
apart by cause; each has a kind and a message. They are no part of reading hostile
input, which fails with a consensus error instead.
-/

set_option autoImplicit false

namespace PeerWire

/-- The three kinds of fault: a value out of range, a value of the wrong shape,
and everything else. -/
inductive FaultKind where
  | range
  | shape
  | general
  deriving DecidableEq

/-- A breach of contract, by its cause. -/
inductive Fault where
  /-- The number does not fit an unsigned width. -/
  | notUnsigned (value : Number) (bits : Nat)
  /-- The number does not fit a two's complement width. -/
  | notSigned (value : Number) (bits : Nat)
  /-- The integer does not fit 64 unsigned bits. -/
  | notUnsigned64 (value : Int)
  /-- The integer does not fit 64 bits in two's complement. -/
  | notSigned64 (value : Int)
  /-- Something else than a number was given for one; it prints as the text. -/
  | notNumeric (shown : Text) (signed : Bool) (bits : Nat)
  /-- The number cannot stand for a variable-length integer without rounding. -/
  | unsafeVarInt (value : Number)
  /-- The integer is no 64-bit magnitude. -/
  | varIntOutOfRange (value : Int)
  /-- The magnitude cannot be given as a number without rounding. -/
  | varIntTooLarge (value : UInt64)
  /-- The integer is no 64-bit mask. -/
  | serviceFlagsOutOfRange (bits : Int)
  /-- The text has no UTF-8 form. -/
  | unpairedSurrogate (text : Text)
  /-- The command holds a character outside U+0001 to U+007F. -/
  | commandNotAscii (command : Text)
  /-- The command is longer than its field. -/
  | commandTooLong (command : Text) (size limit : Nat)
  /-- The chunk does not fit the room left in a fixed buffer. -/
  | sinkFull (wanted remaining capacity : Nat)
  /-- The fixed buffer was taken before it was full. -/
  | notFull (size offset : Nat)
  /-- The start offset is no position in the buffer. -/
  | badOffset
  /-- No buffer has the size. -/
  | badSize (size : Number)
  /-- The size of an element is infinite, and no integer is. -/
  | infiniteSize
  /-- The access leaves the backing bytes. -/
  | outOfBounds
  /-- The value is of a type that the layout does not hold. -/
  | notStorable
  /-- The byte string has another length than its format. -/
  | wrongWidth (expected : Number) (actual : Nat)
  /-- The address has another number of groups than eight. -/
  | wrongGroupCount (actual : Nat)
  /-- The text is no dotted quad. -/
  | notIpv4 (host : Text)
  /-- The bytes are not valid UTF-8. -/
  | malformedUtf8
  /-- The text is not hexadecimal. -/
  | badHex (problem : HexProblem)
  /-- No network has the name. -/
  | unknownNetwork (name : Text)
  /-- A fault raised outside the library. -/
  | foreign (kind : FaultKind) (message : Text)
  deriving DecidableEq

namespace Fault

/-- The kind of a fault. -/
def kind : Fault → FaultKind
  | notUnsigned .. | notSigned .. | notUnsigned64 .. | notSigned64 .. | notNumeric .. => .range
  | unsafeVarInt .. | varIntOutOfRange .. | varIntTooLarge .. => .range
  | serviceFlagsOutOfRange .. | unpairedSurrogate .. => .range
  | commandNotAscii .. | commandTooLong .. => .range
  | sinkFull .. | badSize .. | infiniteSize | outOfBounds => .range
  | badOffset | notStorable | wrongWidth .. | wrongGroupCount .. => .shape
  | notIpv4 .. | malformedUtf8 => .shape
  | notFull .. | badHex .. | unknownNetwork .. => .general
  | foreign kind _ => kind

/-- The message of a fault. -/
def message : Fault → Text
  | notUnsigned value bits =>
    .concat ["value ", value.toText, " is not a ", .ofNat bits, "-bit unsigned integer"]
  | notSigned value bits =>
    .concat ["value ", value.toText, " is not a ", .ofNat bits, "-bit signed integer"]
  | notUnsigned64 value => .concat ["value ", .ofInt value, " is not a 64-bit unsigned integer"]
  | notSigned64 value => .concat ["value ", .ofInt value, " is not a 64-bit signed integer"]
  | notNumeric shown signed bits =>
    .concat ["value ", shown, " is not a ", .ofNat bits, if signed then "-bit signed integer"
      else "-bit unsigned integer"]
  | unsafeVarInt value => .concat ["VarInt requires a safe integer, got ", value.toText]
  | varIntOutOfRange value => .concat ["VarInt out of range: ", .ofInt value]
  | varIntTooLarge value => .concat ["VarInt ", .ofNat value.toNat, " does not fit a safe integer"]
  | serviceFlagsOutOfRange bits => .concat ["service flags out of range: ", .ofInt bits]
  | unpairedSurrogate text => .concat ["string has an unpaired surrogate: ", text.quote]
  | commandNotAscii command => .concat ["command must be printable ASCII: ", command.quote]
  | commandTooLong command size limit =>
    .concat ["command \"", command, "\" is ", .ofNat size, " bytes, limit is ", .ofNat limit]
  | sinkFull wanted remaining capacity =>
    .concat ["Cannot write ", .ofNat wanted, " bytes: only ", .ofNat remaining, " of ",
      .ofNat capacity, " left"]
  | notFull size offset => .concat ["buffer size ", .ofNat size, ", offset ", .ofNat offset]
  | badOffset => "offset must be a non-negative integer within the buffer"
  | badSize size => .concat ["Invalid typed array length: ", size.toText]
  | infiniteSize =>
    "The number Infinity cannot be converted to a BigInt because it is not an integer"
  | outOfBounds => "access outside the bytes"
  | notStorable => "value of another type than the layout"
  | wrongWidth expected actual =>
    .concat ["Expected ", expected.toText, "-byte Uint8Array, got ", .ofNat actual, " bytes"]
  | wrongGroupCount actual => .concat ["Expected 8 address groups, got ", .ofNat actual]
  | notIpv4 host => .concat ["Invalid IPv4 address: ", host]
  | malformedUtf8 => "bytes are not valid UTF-8"
  | badHex .oddLength => "Invalid hex string: odd length"
  | badHex .badCharacter => "Invalid hex string: bad character"
  | unknownNetwork name => .concat ["Unknown network (type ", name, ")"]
  | foreign _ message => message

end Fault

/-- What a byte source or sink raises: a fault, or a bare text. -/
inductive Thrown where
  | fault (fault : Fault)
  | text (text : Text)
  deriving DecidableEq

/-- The message that reports what was raised. -/
def Thrown.message : Thrown → Text
  | .fault cause => cause.message
  | .text words => words

end PeerWire
