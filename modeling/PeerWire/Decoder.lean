import PeerWire.Bytes
import PeerWire.Reader
import PeerWire.Size

/-!
# Decoders

A decoder is a tree: it has a value, or fails, or takes a fixed number of bytes
and goes on with them, or sets room aside for a sequence before reading it. The
tree says what is read and what is allocated, whatever the bytes come from;
running it over a reader supplies them.
-/

set_option autoImplicit false

namespace PeerWire

/-- How a value is read. -/
inductive Decoder (α : Type) where
  | done (value : α)
  | fail (failure : Failure)
  /-- Takes exactly `count` bytes. -/
  | take (count : Nat) (next : Bytes → Decoder α)
  /-- Sets room aside for `count` values that are charged `size` each. -/
  | reserve (count : Nat) (size : Size) (next : Decoder α)

namespace Decoder

variable {α β : Type}

/-- One decoder, and behind it another that depends on the first one's value. -/
def bind : Decoder α → (α → Decoder β) → Decoder β
  | .done value, next => next value
  | .fail failure, _ => .fail failure
  | .take count rest, next => .take count fun bytes => (rest bytes).bind next
  | .reserve count size rest, next => .reserve count size (rest.bind next)

instance : Monad Decoder where
  pure := .done
  bind := bind

@[simp] theorem bind_done (decoder : Decoder α) : decoder.bind .done = decoder := by
  induction decoder with
  | done value => rfl
  | fail failure => rfl
  | take count next ih => simp only [bind, ih]
  | reserve count size next ih => simp only [bind, ih]

theorem bind_assoc {γ : Type} (decoder : Decoder α) (f : α → Decoder β) (g : β → Decoder γ) :
    (decoder.bind f).bind g = decoder.bind fun value => (f value).bind g := by
  induction decoder with
  | done value => rfl
  | fail failure => rfl
  | take count next ih => simp only [bind, ih]
  | reserve count size next ih => simp only [bind, ih]

/-- The decoder that fails with a consensus error. -/
def reject (error : ConsensusError) : Decoder α :=
  .fail (.consensus error)

/-- Takes bytes without looking at them. -/
def bytes (count : Nat) : Decoder Bytes :=
  .take count .done

/-- Goes on with a checked value, or fails as the check does. -/
def ofExcept : Except ConsensusError α → Decoder α
  | .ok value => .done value
  | .error error => reject error

/-- Goes on with the value of a finished attempt, or fails as it did. -/
def ofResult : Except Failure α → Decoder α
  | .ok value => .done value
  | .error failure => .fail failure

/-- The values of a decoder run a number of times, behind those had already. -/
def collect (element : Decoder α) : (count : Nat) → (earlier : List α) → Decoder (List α)
  | 0, earlier => .done earlier.reverse
  | count + 1, earlier => element.bind fun value => collect element count (value :: earlier)

/-- The values of a decoder run a number of times. -/
def times (count : Nat) (element : Decoder α) : Decoder (List α) :=
  collect element count []

/-- Runs a decoder over a reader: the value or the failure, and the reader
afterwards. -/
def run {σ : Type} [ByteSource σ] : Decoder α → Reader σ → Except Failure α × Reader σ
  | .done value, reader => (.ok value, reader)
  | .fail failure, reader => (.error failure, reader)
  | .take count next, reader =>
    match reader.readBytes count with
    | (.ok bytes, reader) => (next bytes).run reader
    | (.error error, reader) => (.error (.consensus error), reader)
  | .reserve _ _ next, reader => next.run reader

end Decoder

end PeerWire
