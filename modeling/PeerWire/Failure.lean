import PeerWire.Fault

/-!
# Failures

Reading and writing fail in two ways. A consensus error says that bytes are not
the encoding of a value, or that the source or sink behind them failed; the set of
these errors is closed. A fault is a mistake of the caller. A failure is either.
-/

set_option autoImplicit false

namespace PeerWire

/-- What went wrong with a source or a sink. -/
inductive IoProblem where
  /-- The source ended before the bytes asked for were there. -/
  | exhausted (needed got : Nat)
  /-- The source or sink raised something. -/
  | raised (cause : Thrown)
  /-- A problem in the words of whoever reports it. -/
  | reported (message : Text)
  deriving DecidableEq

/-- How the structure of a value is violated. -/
inductive ParseProblem where
  /-- The room that a sequence would take does not fit 64 bits. -/
  | invalidLength
  /-- A text field is not UTF-8. -/
  | notUtf8
  /-- A command has a NUL in front of another byte. -/
  | embeddedNul
  /-- A command has a byte above 0x7f. -/
  | commandNotAscii
  /-- A reject code means nothing. -/
  | unknownRejectCode
  /-- Bytes follow a value that should have been the whole input. -/
  | trailingBytes (count : Nat)
  /-- A message without payload came with one. -/
  | unexpectedPayload (command : Text)
  /-- A problem in the words of whoever reports it. -/
  | reported (reason : Text)
  deriving DecidableEq

/-- A failure of input, source or sink. -/
inductive ConsensusError where
  | io (problem : IoProblem)
  | unexpectedNetworkMagic (expected actual : Number)
  | unknownNetworkMagic (magic : Number)
  | oversizedAllocation (requested : Int) (limit : Number)
  | invalidChecksum (expected actual : Bytes)
  | nonMinimalVarInt
  | parseFailed (problem : ParseProblem)
  | unsupportedSegwitFlag (flag : Number)
  | unrecognizedCommand (command : Text)
  | unknownInventoryType (code : Number)
  deriving DecidableEq

namespace IoProblem

/-- The message of an input or output problem. -/
def message : IoProblem → Text
  | exhausted needed got =>
    .concat ["unexpected end of input: needed ", .ofNat needed, " bytes, got ", .ofNat got]
  | raised cause => cause.message
  | reported message => message

end IoProblem

namespace ParseProblem

/-- The reason given for a violation of structure. -/
def reason : ParseProblem → Text
  | invalidLength => "invalid length"
  | notUtf8 => "string was not valid UTF8"
  | embeddedNul => "command string has embedded NUL"
  | commandNotAscii => "command string is not ASCII"
  | unknownRejectCode => "unknown reject code"
  | trailingBytes count =>
    .concat ["data not consumed entirely when explicitly deserializing (", .ofNat count,
      " trailing bytes)"]
  | unexpectedPayload command => .concat [command, " carries no payload"]
  | reported reason => reason

end ParseProblem

namespace ConsensusError

/-- The discriminant by which callers branch. -/
def kind : ConsensusError → String
  | io _ => "io"
  | unexpectedNetworkMagic .. => "unexpected-network-magic"
  | unknownNetworkMagic _ => "unknown-network-magic"
  | oversizedAllocation .. => "oversized-vector-allocation"
  | invalidChecksum .. => "invalid-checksum"
  | nonMinimalVarInt => "non-minimal-varint"
  | parseFailed _ => "parse-failed"
  | unsupportedSegwitFlag _ => "unsupported-segwit-flag"
  | unrecognizedCommand _ => "unrecognized-network-command"
  | unknownInventoryType _ => "unknown-inventory-type"

/-- A magic as messages show it: at least eight hexadecimal digits. -/
def magicText (magic : Number) : Text :=
  Text.ofString "0x" ++ Text.padZeros 8 magic.toHexText

/-- The message of a consensus error. -/
def message : ConsensusError → Text
  | io problem => .concat ["I/O error: ", problem.message]
  | unexpectedNetworkMagic expected actual =>
    .concat ["unexpected network magic: expected ", magicText expected, ", actual ",
      magicText actual]
  | unknownNetworkMagic magic => .concat ["unknown network magic: ", magicText magic]
  | oversizedAllocation requested limit =>
    .concat ["allocation of oversized vector requested: requested ", .ofInt requested,
      ", maximum ", limit.toText]
  | invalidChecksum expected actual =>
    .concat ["invalid checksum: expected ", expected.toHex, ", actual ", actual.toHex]
  | nonMinimalVarInt => "non-minimal varint"
  | parseFailed problem => .concat ["parse failed: ", problem.reason]
  | unsupportedSegwitFlag flag => .concat ["unsupported segwit version: ", flag.toText]
  | unrecognizedCommand command => .concat ["unrecognized network command: ", command.quote]
  | unknownInventoryType code => .concat ["unknown inventory type: ", code.toText]

/-- What a consensus error was raised because of, if it has a cause. -/
def cause? : ConsensusError → Option Thrown
  | io (.raised cause) => some cause
  | parseFailed .notUtf8 => some (.fault .malformedUtf8)
  | _ => none

end ConsensusError

/-- A failure to read or write: of the input, or of the caller. -/
inductive Failure where
  | consensus (error : ConsensusError)
  | fault (fault : Fault)
  deriving DecidableEq

end PeerWire
