import PeerWire.Codec
import PeerWire.Text.Utf8

/-!
# Commands

A message says what it is by a command, a name of at most twelve ASCII characters
other than NUL. On the wire the name fills a field of twelve bytes, with NULs
behind it. Writing never shortens a name; reading rejects a field with any other
NUL in it.
-/

set_option autoImplicit false

namespace PeerWire

/-- The commands that messages are known by. -/
inductive Command where
  | version
  | verack
  | addr
  | inv
  | getdata
  | notfound
  | getaddr
  | ping
  | pong
  | sendheaders
  | reject
  deriving DecidableEq

namespace Command

/-- Every command. -/
def all : List Command :=
  [version, verack, addr, inv, getdata, notfound, getaddr, ping, pong, sendheaders, reject]

/-- The name of a command. -/
def name : Command → String
  | version => "version"
  | verack => "verack"
  | addr => "addr"
  | inv => "inv"
  | getdata => "getdata"
  | notfound => "notfound"
  | getaddr => "getaddr"
  | ping => "ping"
  | pong => "pong"
  | sendheaders => "sendheaders"
  | reject => "reject"

/-- The command of a name. -/
def ofName? (name : Text) : Option Command :=
  all.find? fun command => Text.ofString command.name = name

/-- The size of the field that holds a name. -/
def fieldSize : Nat := 12

/-- The bytes of a name, if it can stand in the field. -/
def checkName (name : Text) : Except Fault Bytes :=
  let bytes := name.toUtf8
  if !bytes.isAscii || bytes.contains 0 then .error (.commandNotAscii name)
  else if fieldSize < bytes.length then .error (.commandTooLong name bytes.length fieldSize)
  else .ok bytes

/-- The field of a name's bytes. -/
def field (bytes : Bytes) : Bytes :=
  bytes ++ List.replicate (fieldSize - bytes.length) 0

/-- A field without the NULs at its end. -/
def trim (field : Bytes) : Bytes :=
  (field.reverse.dropWhile (· = 0)).reverse

/-- The name that a field holds. -/
def nameOfField (field : Bytes) : Except ConsensusError Text :=
  let bytes := trim field
  if bytes.contains 0 then .error (.parseFailed .embeddedNul)
  else if bytes.isAscii then .ok ⟨bytes.map UInt8.toUInt16⟩
  else .error (.parseFailed .commandNotAscii)

/-- A name in its field. -/
def codec : Codec Text where
  elementSize := fieldSize
  encode name := .ofExcept (checkName name) fun bytes => .chunk (field bytes)
  decode := .take fieldSize fun bytes => .ofExcept (nameOfField bytes)

end Command

end PeerWire
