/-!
# Texts

A text is a sequence of UTF-16 code units, which need not be well formed: a
surrogate may stand without its partner. Reading a text into points joins each
high surrogate that is directly followed by a low one; pairing is local, so the
points of a text are read off from its end. A text is well formed when no point
is a lone surrogate.
-/

set_option autoImplicit false

namespace PeerWire

/-- A sequence of UTF-16 code units. -/
structure Text where
  units : List UInt16
  deriving DecidableEq

namespace Text

/-! ## Characters and units -/

/-- The code units of a character: one, or a surrogate pair. -/
def unitsOfChar (c : Char) : List UInt16 :=
  let code := c.toNat
  if code < 0x10000 then [UInt16.ofNat code]
  else [UInt16.ofNat (0xd800 + (code - 0x10000) / 0x400),
    UInt16.ofNat (0xdc00 + (code - 0x10000) % 0x400)]

/-- The text of a list of characters. -/
def ofChars (chars : List Char) : Text :=
  ⟨chars.flatMap unitsOfChar⟩

/-- The text of a string. -/
def ofString (s : String) : Text :=
  ofChars s.toList

instance : Coe String Text := ⟨ofString⟩

instance : Append Text := ⟨fun a b => ⟨a.units ++ b.units⟩⟩

@[simp] theorem units_append (a b : Text) : (a ++ b).units = a.units ++ b.units := rfl

/-- The number of code units. -/
def length (text : Text) : Nat :=
  text.units.length

/-- One text after the other. -/
def concat (parts : List Text) : Text :=
  ⟨parts.flatMap units⟩

/-- Texts with a separator between neighbours. -/
def join (separator : Text) (parts : List Text) : Text :=
  ⟨List.intercalate separator.units (parts.map units)⟩

/-- The pieces between the occurrences of a unit; one more than there are
occurrences. -/
def splitOn (separator : UInt16) (text : Text) : List Text :=
  (text.units.foldr (fun unit pieces =>
    if unit = separator then [] :: pieces
    else match pieces with
      | [] => [[unit]]
      | piece :: more => (unit :: piece) :: more) [[]]).map Text.mk

/-! ## Points -/

/-- What a text is made of: characters, and surrogates without a partner. -/
inductive Point where
  | char (c : Char)
  | lone (unit : UInt16)
  deriving DecidableEq

/-- A unit of the first half of a surrogate pair. -/
def isHigh (unit : UInt16) : Bool :=
  0xd800 ≤ unit && unit ≤ 0xdbff

/-- A unit of the second half of a surrogate pair. -/
def isLow (unit : UInt16) : Bool :=
  0xdc00 ≤ unit && unit ≤ 0xdfff

/-- The character that a surrogate pair stands for. -/
def joinPair (high low : UInt16) : Char :=
  Char.ofNat (0x10000 + (high.toNat - 0xd800) * 0x400 + (low.toNat - 0xdc00))

/-- The point of a unit that is no part of a pair. -/
def Point.single (unit : UInt16) : Point :=
  if isHigh unit || isLow unit then .lone unit else .char (Char.ofNat unit.toNat)

/-- Puts a unit in front of points: a high surrogate joins a lone low one. -/
def Point.push (unit : UInt16) : List Point → List Point
  | .lone next :: rest =>
    if isHigh unit && isLow next then .char (joinPair unit next) :: rest
    else .single unit :: .lone next :: rest
  | points => .single unit :: points

/-- The points of a text, in order. -/
def points (text : Text) : List Point :=
  text.units.foldr Point.push []

/-- Whether a point is a character. -/
def Point.isChar : Point → Bool
  | .char _ => true
  | .lone _ => false

/-- Whether every surrogate is half of a pair. -/
def isWellFormed (text : Text) : Bool :=
  text.points.all Point.isChar

end Text

end PeerWire
