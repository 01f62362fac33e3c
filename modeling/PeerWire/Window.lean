import PeerWire.Bytes
import PeerWire.Fault
import PeerWire.Scalar

/-!
# Windows

Fixed-width integers at a place in a stretch of a longer byte string. Places are
counted from the start of the window, and an access is within bounds when it stays
inside the backing bytes. A write changes the bytes it covers and no others; an
integer that does not fit its width is wrapped.
-/

set_option autoImplicit false

namespace PeerWire

/-- A stretch of backing bytes. -/
structure Window where
  backing : Bytes
  start : Nat
  length : Nat
  deriving DecidableEq

/-- How an integer lies in bytes. -/
structure IntLayout where
  width : Nat
  order : ByteOrder
  signed : Bool
  deriving DecidableEq

/-- The integer that is stored for a scalar. Eight bytes hold unlimited integers
and fewer hold numbers, less their fraction; truth values are stored as one and
zero. -/
def IntLayout.integer? (layout : IntLayout) : Scalar → Option Int
  | .number value => if layout.width < 8 then some value.truncate else none
  | .integer value => if layout.width < 8 then none else some value
  | .truth value => some (if value then 1 else 0)
  | .absent => if layout.width < 8 then some 0 else none
  | .text _ | .bytes _ => none

namespace Window

/-- The window over all of a byte string. -/
def ofBytes (backing : Bytes) : Window :=
  ⟨backing, 0, backing.length⟩

/-- The window over a stretch of a byte string, as far as there are bytes. -/
def ofStretch (backing : Bytes) (start length : Nat) : Window :=
  let start := min start backing.length
  ⟨backing, start, min length (backing.length - start)⟩

/-- The bytes that the window shows. -/
def bytes (window : Window) : Bytes :=
  (window.backing.drop window.start).take window.length

/-- The place in the backing bytes of an access of a given width. -/
def place? (window : Window) (width : Nat) (offset : Int) : Option Nat :=
  let place := (window.start : Int) + offset
  if 0 ≤ place ∧ place + width ≤ window.backing.length then some place.toNat else none

/-- The integer at an offset. -/
def read (window : Window) (layout : IntLayout) (offset : Int) : Except Fault Int :=
  match window.place? layout.width offset with
  | none => .error .outOfBounds
  | some place =>
    let field := (window.backing.drop place).take layout.width
    .ok (if layout.signed then layout.order.readSigned field else layout.order.read field)

/-- Writes an integer at an offset: the window afterwards, and the offset behind
what was written. -/
def write (window : Window) (layout : IntLayout) (offset : Int) (value : Int) :
    Except Fault (Window × Int) :=
  match window.place? layout.width offset with
  | none => .error .outOfBounds
  | some place =>
    let backing := window.backing.take place ++ layout.order.write layout.width value
      ++ window.backing.drop (place + layout.width)
    .ok ({ window with backing }, offset + layout.width)

/-- Writes what is stored for a scalar. An access out of bounds is found before a
scalar that cannot be stored. -/
def writeScalar (window : Window) (layout : IntLayout) (offset : Int) (value : Scalar) :
    Except Fault (Window × Int) :=
  match layout.integer? value, window.place? layout.width offset with
  | some value, _ => window.write layout offset value
  | none, some _ => .error .notStorable
  | none, none => .error .outOfBounds

/-! ## Accessors

Each is the read or the write above at its own layout. Names end in the order of the bytes,
unless there is only one. -/

def readUInt16LE (window : Window) : (offset : Int) → Except Fault Int :=
  window.read ⟨2, .little, false⟩

def readUInt16BE (window : Window) : (offset : Int) → Except Fault Int :=
  window.read ⟨2, .big, false⟩

def readUInt32LE (window : Window) : (offset : Int) → Except Fault Int :=
  window.read ⟨4, .little, false⟩

def readUInt32BE (window : Window) : (offset : Int) → Except Fault Int :=
  window.read ⟨4, .big, false⟩

def readUInt64LE (window : Window) : (offset : Int) → Except Fault Int :=
  window.read ⟨8, .little, false⟩

def readUInt64BE (window : Window) : (offset : Int) → Except Fault Int :=
  window.read ⟨8, .big, false⟩

def readInt8 (window : Window) : (offset : Int) → Except Fault Int :=
  window.read ⟨1, .little, true⟩

def readInt16LE (window : Window) : (offset : Int) → Except Fault Int :=
  window.read ⟨2, .little, true⟩

def readInt32LE (window : Window) : (offset : Int) → Except Fault Int :=
  window.read ⟨4, .little, true⟩

def readInt64LE (window : Window) : (offset : Int) → Except Fault Int :=
  window.read ⟨8, .little, true⟩

def writeUInt16LE (window : Window) : (offset : Int) → Scalar → Except Fault (Window × Int) :=
  window.writeScalar ⟨2, .little, false⟩

def writeUInt16BE (window : Window) : (offset : Int) → Scalar → Except Fault (Window × Int) :=
  window.writeScalar ⟨2, .big, false⟩

def writeUInt32LE (window : Window) : (offset : Int) → Scalar → Except Fault (Window × Int) :=
  window.writeScalar ⟨4, .little, false⟩

def writeUInt32BE (window : Window) : (offset : Int) → Scalar → Except Fault (Window × Int) :=
  window.writeScalar ⟨4, .big, false⟩

def writeUInt64LE (window : Window) : (offset : Int) → Scalar → Except Fault (Window × Int) :=
  window.writeScalar ⟨8, .little, false⟩

def writeInt8 (window : Window) : (offset : Int) → Scalar → Except Fault (Window × Int) :=
  window.writeScalar ⟨1, .little, true⟩

def writeInt16LE (window : Window) : (offset : Int) → Scalar → Except Fault (Window × Int) :=
  window.writeScalar ⟨2, .little, true⟩

def writeInt32LE (window : Window) : (offset : Int) → Scalar → Except Fault (Window × Int) :=
  window.writeScalar ⟨4, .little, true⟩

def writeInt64LE (window : Window) : (offset : Int) → Scalar → Except Fault (Window × Int) :=
  window.writeScalar ⟨8, .little, true⟩

end Window

end PeerWire
