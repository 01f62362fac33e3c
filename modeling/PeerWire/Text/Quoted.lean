import PeerWire.Text.Numeral

/-!
# Quoted texts

The form in which messages show a text: between double quotes, with the quote,
the backslash, the control characters below U+0020 and lone surrogates escaped,
and every other character as it stands. A control character with a short escape
uses it; the others, and lone surrogates, are written by four hexadecimal digits.
-/

set_option autoImplicit false

namespace PeerWire

namespace Text

/-- An escape by four lower case hexadecimal digits. -/
def escapeUnit (unit : UInt16) : Text :=
  ofString "\\u" ++ padZeros 4 (ofNatHex unit.toNat)

/-- The quoted form of a character. -/
def quoteChar (c : Char) : Text :=
  if c = '"' then ofString "\\\""
  else if c = '\\' then ofString "\\\\"
  else if c = '\x08' then ofString "\\b"
  else if c = '\t' then ofString "\\t"
  else if c = '\n' then ofString "\\n"
  else if c = '\x0c' then ofString "\\f"
  else if c = '\r' then ofString "\\r"
  else if c.toNat < 0x20 then escapeUnit (UInt16.ofNat c.toNat)
  else ofChars [c]

/-- The quoted form of a point. -/
def Point.quote : Point → Text
  | .char c => quoteChar c
  | .lone unit => escapeUnit unit

/-- The quoted form of a text. -/
def quote (text : Text) : Text :=
  concat [ofString "\"", concat (text.points.map Point.quote), ofString "\""]

end Text

end PeerWire
