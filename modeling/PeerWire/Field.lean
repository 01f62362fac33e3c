import PeerWire.Codec

/-!
# Fields of records

A record is an object, and a field of it is found by a name. All names but one are alike:
what is assigned under such a name is what is found there. Under the name `__proto__` an
assignment reaches the prototype of the record. An object becomes the prototype, and is
found there again; any other value is lost, and what is found in its place is the
prototype that all objects share.

An object that has become the prototype may also keep other names from being assigned, as
a byte string does with `length`. Records in which such a name follows are left out here.
-/

set_option autoImplicit false

namespace PeerWire

/-- The name of a field. -/
inductive FieldName where
  | ordinary (text : String) (apart : text ≠ "__proto__")
  /-- The name that reaches the prototype. -/
  | prototype
  deriving DecidableEq

/-- The name that a text is. -/
def FieldName.ofString (text : String) : FieldName :=
  if apart : text ≠ "__proto__" then .ordinary text apart else .prototype

/-- What a record holds under the name of its prototype, for values that are objects or for
others. -/
inductive Held (objects : Bool) (α : Type) where
  /-- A value that the record was made with. -/
  | own (value : α)
  /-- An object that was assigned. -/
  | inherited (value : α) (object : objects = true)
  /-- Nothing: what was assigned is no object. -/
  | lost (primitive : objects = false)

namespace Held

variable {α : Type}

/-- What is held once a value has been assigned. -/
def assigned : (objects : Bool) → (value : α) → Held objects α
  | true, value => .inherited value rfl
  | false, _ => .lost rfl

/-- The value that an encoder finds. What it takes the shared prototype for is `stray`: some
value, or none that passes its checks. -/
def found {objects : Bool} (stray : objects = false → Except Fault α) :
    Held objects α → Except Fault α
  | .own value => .ok value
  | .inherited value _ => .ok value
  | .lost primitive => stray primitive

end Held

namespace FieldName

variable {α : Type} {objects : Bool}

/-- What a record holds under a name. -/
@[reducible] def Holding : (name : FieldName) → (objects : Bool) → (α : Type) → Type
  | .ordinary .., _, α => α
  | .prototype, objects, α => Held objects α

/-- The value that an encoder finds under a name. -/
def found (stray : objects = false → Except Fault α) :
    (name : FieldName) → name.Holding objects α → Except Fault α
  | .ordinary .., value => .ok value
  | .prototype, held => held.found stray

end FieldName

namespace Codec

variable {α : Type} {objects : Bool}

/-- The codec of what is held under the name of the prototype. -/
def held (inner : Codec α) (stray : objects = false → Except Fault α) :
    Codec (Held objects α) where
  elementSize := inner.elementSize
  encode held := .ofExcept (held.found stray) inner.encode
  decode := inner.decode.bind fun value => .done (.assigned objects value)

/-- The codec of what is held under a name. -/
def under (inner : Codec α) (stray : objects = false → Except Fault α) :
    (name : FieldName) → Codec (name.Holding objects α)
  | .ordinary .. => inner
  | .prototype => inner.held stray

/-- What is written of a field is what is written of the value that is found. -/
theorem encode_under (inner : Codec α) (stray : objects = false → Except Fault α)
    (name : FieldName) (held : name.Holding objects α) :
    (inner.under stray name).encode held = .ofExcept (name.found stray held) inner.encode := by
  cases name with
  | ordinary text apart => rfl
  | prototype => rfl

end Codec

end PeerWire
