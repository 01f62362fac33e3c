import PeerWire.Bytes
import PeerWire.Text

/-!
# UTF-8

Writing a text in UTF-8 is total: a lone surrogate, which has no UTF-8 form, is
written as the replacement character. Reading is strict: it accepts exactly the
byte strings that are the encoding of a list of characters, keeps a leading byte
order mark, and gives a well-formed text.
-/

set_option autoImplicit false

namespace PeerWire

namespace Text

/-- The three bytes of the replacement character U+FFFD. -/
def replacement : Bytes := [0xef, 0xbf, 0xbd]

/-- The UTF-8 bytes of a point. -/
def Point.toUtf8 : Point → Bytes
  | .char c => String.utf8EncodeChar c
  | .lone _ => replacement

/-- The UTF-8 bytes of a text. -/
def toUtf8 (text : Text) : Bytes :=
  text.points.flatMap Point.toUtf8

/-- The text that a byte string encodes, if it is strictly valid UTF-8. -/
def ofUtf8? (bytes : Bytes) : Option Text :=
  (String.fromUTF8? ⟨bytes.toArray⟩).map ofString

end Text

namespace Bytes

/-- Whether every byte has its high bit clear. -/
def isAscii (bytes : Bytes) : Bool :=
  bytes.all (· ≤ 0x7f)

end Bytes

end PeerWire
