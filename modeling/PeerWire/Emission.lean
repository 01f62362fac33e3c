import PeerWire.Failure
import PeerWire.Sink

/-!
# Emissions

What encoding a value comes to: the chunks to be written, in order, and the outcome
behind them, which is a count of bytes, or a fault if the value is not in its format's
domain. The count is the encoder's own: it is put together beside the chunks, as an
encoder adds up what the encoders of its parts return. An emission says nothing about a
sink; delivering it writes the chunks one by one until the sink raises something or the
outcome is reached. Gathering an emission makes it all or nothing: one chunk, or the
fault and no chunk.
-/

set_option autoImplicit false

namespace PeerWire

/-- Chunks to be written, and what is met behind them: a result, or a fault. -/
structure Emitting (α : Type) where
  chunks : List Bytes
  outcome : Except Fault α

namespace Emitting

variable {α β : Type}

/-- Writes nothing. -/
protected def pure (result : α) : Emitting α :=
  ⟨[], .ok result⟩

/-- One part, and behind it another that depends on the first one's result, unless the
first ends in a fault. -/
protected def bind (first : Emitting α) (next : α → Emitting β) : Emitting β :=
  match first.outcome with
  | .ok result => ⟨first.chunks ++ (next result).chunks, (next result).outcome⟩
  | .error fault => ⟨first.chunks, .error fault⟩

instance : Monad Emitting where
  pure := Emitting.pure
  bind := Emitting.bind

end Emitting

/-- What an encoder does: chunks, and behind them the count that it returns, or a fault. -/
abbrev Emission := Emitting Nat

namespace Emission

/-- Writes nothing. -/
def nothing : Emission :=
  ⟨[], .ok 0⟩

/-- Writes one chunk and returns its length. -/
def chunk (bytes : Bytes) : Emission :=
  ⟨[bytes], .ok bytes.length⟩

/-- Writes nothing and ends in a fault. -/
def fail (fault : Fault) : Emission :=
  ⟨[], .error fault⟩

/-- One emission, and behind it another unless the first ends in a fault. The counts are
added up. -/
def andThen (first second : Emission) : Emission := do
  let front ← first
  let back ← second
  return front + back

/-- Emissions in order, up to the first fault. -/
def all (emissions : List Emission) : Emission :=
  emissions.foldr andThen nothing

/-- The emissions of values in order; what each returns is added to a count. -/
def addUp {α : Type} (encode : α → Emission) : (values : List α) → (count : Nat) → Emission
  | [], count => pure count
  | value :: rest, count => do addUp encode rest (count + (← encode value))

/-- The emission of a checked value, or the fault of the check. -/
def ofExcept {α : Type} (value : Except Fault α) (emit : α → Emission) : Emission :=
  match value with
  | .ok value => emit value
  | .error fault => fail fault

/-- The bytes of the chunks. -/
def bytes (emission : Emission) : Bytes :=
  emission.chunks.flatten

/-- All bytes of an emission that ends in no fault. -/
def toExcept (emission : Emission) : Except Fault Bytes :=
  match emission.outcome with
  | .ok _ => .ok emission.bytes
  | .error fault => .error fault

/-- The same bytes as one chunk, or the fault alone. -/
def gathered (emission : Emission) : Emission :=
  ofExcept emission.toExcept chunk

/-! ## Laws -/

/-- Behind an emission that ends in a count comes the next one. -/
theorem ok_andThen (chunks : List Bytes) (count : Nat) (second : Emission) :
    andThen ⟨chunks, .ok count⟩ second
      = ⟨chunks ++ second.chunks, second.outcome.map (count + ·)⟩ := by
  obtain ⟨others, outcome⟩ := second
  cases outcome with
  | ok more => exact congrArg (Emitting.mk · _) (congrArg (chunks ++ ·) (List.append_nil others))
  | error fault => rfl

/-- Behind an emission that ends in a fault comes nothing. -/
theorem error_andThen (chunks : List Bytes) (fault : Fault) (second : Emission) :
    andThen ⟨chunks, .error fault⟩ second = ⟨chunks, .error fault⟩ := rfl

@[simp] theorem nothing_andThen (emission : Emission) : nothing.andThen emission = emission := by
  obtain ⟨chunks, outcome⟩ := emission
  cases outcome with
  | ok count => rw [nothing, ok_andThen, List.nil_append, Except.map, Nat.zero_add]
  | error fault => rfl

@[simp] theorem andThen_nothing (emission : Emission) : emission.andThen nothing = emission := by
  obtain ⟨chunks, outcome⟩ := emission
  cases outcome with
  | ok count => rw [ok_andThen, nothing, List.append_nil, Except.map, Nat.add_zero]
  | error fault => rfl

theorem andThen_assoc (first second third : Emission) :
    (first.andThen second).andThen third = first.andThen (second.andThen third) := by
  obtain ⟨firstChunks, firstOutcome⟩ := first
  obtain ⟨secondChunks, secondOutcome⟩ := second
  obtain ⟨thirdChunks, thirdOutcome⟩ := third
  cases firstOutcome with
  | error fault => rfl
  | ok front =>
    cases secondOutcome with
    | error fault => rfl
    | ok middle =>
      simp only [ok_andThen, Except.map, List.append_assoc]
      cases thirdOutcome with
      | error fault => rfl
      | ok back => simp only [Nat.add_assoc]

/-- Three emissions whose counts are added from the left. -/
theorem bind_bind_bind (first second third : Emission) :
    (do
      let front ← first
      let middle ← second
      let back ← third
      return front + middle + back : Emission) = first.andThen (second.andThen third) := by
  rw [← andThen_assoc]
  obtain ⟨firstChunks, firstOutcome⟩ := first
  obtain ⟨secondChunks, secondOutcome⟩ := second
  cases firstOutcome with
  | error fault => rfl
  | ok front =>
    cases secondOutcome with
    | error fault => rfl
    | ok middle =>
      rw [ok_andThen, Except.map]
      exact congrArg (Emitting.mk · _) (List.append_assoc firstChunks secondChunks _).symm

@[simp] theorem all_nil : all [] = nothing := rfl

@[simp] theorem all_cons (emission : Emission) (rest : List Emission) :
    all (emission :: rest) = emission.andThen (all rest) := rfl

/-- Adding up goes on from a count as an emission behind that count does. -/
theorem addUp_eq_andThen {α : Type} (encode : α → Emission) (values : List α) (count : Nat) :
    addUp encode values count = andThen ⟨[], .ok count⟩ (all (values.map encode)) := by
  induction values generalizing count with
  | nil => rfl
  | cons value rest ih =>
    rw [addUp, List.map_cons, all_cons, ← andThen_assoc]
    obtain ⟨chunks, outcome⟩ := encode value
    cases outcome with
    | error fault => rfl
    | ok more =>
      have behind : addUp encode rest (count + more)
          = ⟨[] ++ (all (rest.map encode)).chunks,
              (all (rest.map encode)).outcome.map (count + more + ·)⟩ := by
        rw [ih, ok_andThen]
      rw [ok_andThen, Except.map, ok_andThen, List.nil_append]
      change Emitting.mk (chunks ++ (addUp encode rest (count + more)).chunks)
        (addUp encode rest (count + more)).outcome = _
      rw [behind, List.nil_append]

@[simp] theorem addUp_zero {α : Type} (encode : α → Emission) (values : List α) :
    addUp encode values 0 = all (values.map encode) := by
  rw [addUp_eq_andThen]
  exact nothing_andThen _

/-- Values written behind a front are their emissions behind it, in order. -/
theorem bind_addUp {α : Type} (front : Emission) (encode : α → Emission) (values : List α) :
    (do addUp encode values (← front)) = front.andThen (all (values.map encode)) := by
  obtain ⟨chunks, outcome⟩ := front
  cases outcome with
  | error fault => rfl
  | ok count =>
    change Emitting.mk (chunks ++ (addUp encode values count).chunks)
      (addUp encode values count).outcome = _
    rw [addUp_eq_andThen, ok_andThen, ok_andThen, List.nil_append]

/-! ## Delivery -/

/-- Writes chunks to a sink one by one, and then ends as the emission does. -/
def send {σ : Type} [ByteSink σ] (outcome : Except Fault Nat) :
    List Bytes → σ → Except Failure Nat × σ
  | [], sink => (outcome.mapError .fault, sink)
  | chunk :: rest, sink =>
    match ByteSink.write chunk sink with
    | (.ok (), sink) => send outcome rest sink
    | (.error cause, sink) => (.error (.consensus (.io (.raised cause))), sink)

/-- Delivers an emission to a sink: the count that the encoder returns, or the failure,
and the sink afterwards. -/
def deliver {σ : Type} [ByteSink σ] (emission : Emission) (sink : σ) :
    Except Failure Nat × σ :=
  send emission.outcome emission.chunks sink

end Emission

end PeerWire
