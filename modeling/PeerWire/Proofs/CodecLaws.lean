import PeerWire.Proofs.Parsing
import PeerWire.Sequence

/-!
# Laws of codecs

Two laws tie the writing half of a codec to its reading half.

A codec *restores* its values when reading what it writes of a value, in front of
any bytes, gives the value back and leaves those bytes alone. Nothing is promised
for a value whose length prefixes demand more room than the ceiling allows, except
how reading fails: on the first such demand, in the order of the wire. The demands
of a value are therefore part of the law.

A codec is *canonical* when the bytes that it reads a value from are the bytes that
it writes for that value, so that no value has two encodings.

Both laws are kept by pairs, by values that stand for others, and by sequences.
-/

set_option autoImplicit false

attribute [local instance (high)] instPowNat

namespace PeerWire

/-! ## Writing -/

namespace Emission

@[simp] theorem toExcept_chunk (bytes : Bytes) : (chunk bytes).toExcept = .ok bytes := by
  rw [toExcept, chunk, Emission.bytes, List.flatten_singleton]

@[simp] theorem toExcept_fail (fault : Fault) : (fail fault).toExcept = .error fault := rfl

/-- One emission behind another comes to bytes when both do. -/
theorem toExcept_andThen_eq_ok {first second : Emission} {bytes : Bytes} :
    (first.andThen second).toExcept = .ok bytes
      ↔ ∃ front back, first.toExcept = .ok front ∧ second.toExcept = .ok back
          ∧ bytes = front ++ back := by
  obtain ⟨firstChunks, firstOutcome⟩ := first
  obtain ⟨secondChunks, secondOutcome⟩ := second
  cases firstOutcome with
  | error fault => simp [error_andThen, toExcept]
  | ok front =>
    cases secondOutcome with
    | error fault => simp [ok_andThen, toExcept, Except.map]
    | ok back => simp [ok_andThen, toExcept, Except.map, Emission.bytes, eq_comm]

theorem toExcept_ofExcept_eq_ok {α : Type} {checked : Except Fault α} {emit : α → Emission}
    {bytes : Bytes} :
    (ofExcept checked emit).toExcept = .ok bytes
      ↔ ∃ value, checked = .ok value ∧ (emit value).toExcept = .ok bytes := by
  cases checked with
  | ok value => simp [ofExcept]
  | error fault => simp [ofExcept]

end Emission

/-! ## Demands -/

/-- What a length prefix asks a reader to set aside: room for a number of elements,
at the size that each is charged. -/
structure Demand where
  count : Nat
  elementSize : Nat
  deriving DecidableEq

namespace Demand

/-- The bytes that are charged; every element counts for at least one. -/
def room (demand : Demand) : Nat :=
  demand.count * max 1 demand.elementSize

/-- The error that a demand over the ceiling is met with. -/
def refusal (demand : Demand) : ConsensusError :=
  if maxUnsigned64 < demand.room then .parseFailed .invalidLength
  else .oversizedAllocation demand.room (.int maxSequenceSize)

/-- The error that the first demand over the ceiling is met with, if there is one. -/
def refusal? : List Demand → Option ConsensusError
  | [] => none
  | demand :: rest => if demand.room ≤ maxSequenceSize then refusal? rest else some demand.refusal

theorem refusal?_append (first second : List Demand) :
    refusal? (first ++ second) = (refusal? first).or (refusal? second) := by
  induction first with
  | nil => rfl
  | cons demand rest ih =>
    rw [List.cons_append, refusal?, refusal?]
    split
    · exact ih
    · rfl

theorem refusal?_append_eq_none {first second : List Demand} :
    refusal? (first ++ second) = none ↔ refusal? first = none ∧ refusal? second = none := by
  rw [refusal?_append, Option.or_eq_none_iff]

/-- A refusal of two lists of demands comes from the first, or from the second if
the first has none. -/
theorem refusal?_append_eq_some {first second : List Demand} {error : ConsensusError}
    (refused : refusal? (first ++ second) = some error) :
    refusal? first = some error ∨ (refusal? first = none ∧ refusal? second = some error) := by
  rwa [refusal?_append, Option.or_eq_some_iff] at refused

/-- Nothing is refused exactly when every demand is within the ceiling. -/
theorem refusal?_eq_none_iff {demands : List Demand} :
    refusal? demands = none ↔ ∀ demand ∈ demands, demand.room ≤ maxSequenceSize := by
  induction demands with
  | nil => simp [refusal?]
  | cons demand rest ih =>
    rw [refusal?, List.forall_mem_cons]
    split
    · next fits => rw [ih, and_iff_right fits]
    · next large => simp [large]

/-- A byte is charged as what it is. -/
theorem room_bytes (count : Nat) : (Demand.mk count 1).room = count :=
  Nat.mul_one count

theorem refusal?_of_fits {count : Nat} (fits : count ≤ maxSequenceSize) :
    refusal? [⟨count, 1⟩] = none := by
  rw [refusal?, room_bytes, if_pos fits, refusal?]

/-- Bytes over the ceiling whose number fits a length field of four bytes. -/
theorem refusal?_of_bytes {count : Nat} (field : count < 0x100000000)
    (large : maxSequenceSize < count) :
    refusal? [⟨count, 1⟩] = some (.oversizedAllocation count (.int maxSequenceSize)) := by
  have field64 : count ≤ maxUnsigned64 := Nat.le_trans (Nat.le_of_lt field) (by decide)
  rw [refusal?, refusal, room_bytes, if_neg (Nat.not_le.mpr large),
    if_neg (Nat.not_lt.mpr field64)]

/-- Checking a count is meeting the demand it stands for. -/
theorem withinCeiling_eq (count elementSize : Nat) :
    withinCeiling count elementSize
      = match refusal? [⟨count, elementSize⟩] with
        | none => .ok count
        | some error => .error error := by
  have ceiling : maxSequenceSize < maxUnsigned64 := by decide
  have requested : count * max 1 elementSize = (Demand.mk count elementSize).room := rfl
  rw [withinCeiling, requested, refusal?, refusal?, refusal]
  generalize (Demand.mk count elementSize).room = room at *
  by_cases fits : room ≤ maxSequenceSize
  · rw [if_neg (by omega), if_neg (by omega), if_pos fits]
  · rw [if_neg fits]
    split
    · rfl
    · rw [if_pos (by omega)]

/-- A count that passes the check is the one that was checked, and its demand is met. -/
theorem withinCeiling_eq_ok {count elementSize checked : Nat}
    (allowed : withinCeiling count elementSize = .ok checked) :
    checked = count ∧ count * max 1 elementSize ≤ maxSequenceSize := by
  rw [withinCeiling_eq] at allowed
  split at allowed
  · next fits =>
    cases allowed
    exact ⟨rfl, refusal?_eq_none_iff.mp fits _ (List.mem_singleton.mpr rfl)⟩
  · cases allowed

end Demand

/-- At a size that is a number of bytes, a count is checked against the ceiling alone. -/
theorem Decoder.ofResult_checkAllocation (count bytes : Nat) :
    Decoder.ofResult (checkAllocation count (.finite bytes))
      = .ofExcept (withinCeiling count bytes) := by
  rw [checkAllocation]
  cases withinCeiling count bytes with
  | ok count => rfl
  | error error => rfl

/-- A count that is let through was checked at a size that is a number of bytes. -/
theorem checkAllocation_eq_ok {count checked : Nat} {size : Size}
    (allowed : checkAllocation count size = .ok checked) :
    ∃ bytes, size = .finite bytes ∧ withinCeiling count bytes = .ok checked := by
  cases size with
  | infinite => cases allowed
  | finite bytes =>
    refine ⟨bytes, rfl, ?_⟩
    rw [checkAllocation] at allowed
    cases within : withinCeiling count bytes with
    | ok found =>
      rw [within] at allowed
      cases allowed
      rfl
    | error error =>
      rw [within] at allowed
      cases allowed

/-! ## The laws -/

namespace Codec

variable {α β : Type}

/-- Whatever a codec writes of a value is read back as that value, and what follows
is left, unless a demand of the value is refused; then reading fails as the first
refusal says. -/
structure Restores (codec : Codec α) (demands : α → List Demand) : Prop where
  restored : ∀ {value : α} {bytes : Bytes}, codec.serialize value = .ok bytes →
    Demand.refusal? (demands value) = none → ∀ suffix : Bytes,
      codec.decode.parse (bytes ++ suffix) = (.ok value, suffix)
  refused : ∀ {value : α} {bytes : Bytes} {error : ConsensusError},
    codec.serialize value = .ok bytes → Demand.refusal? (demands value) = some error →
      ∀ suffix : Bytes, (codec.decode.parse (bytes ++ suffix)).1 = .error (.consensus error)

/-- Whatever a codec reads a value from is what it writes for that value. -/
def Canonical (codec : Codec α) : Prop :=
  ∀ (bytes rest : Bytes) (value : α), codec.decode.parse bytes = (.ok value, rest) →
    ∃ front, codec.serialize value = .ok front ∧ bytes = front ++ rest

/-- A codec without length prefixes restores its values if it reads them back. -/
theorem Restores.of_parse_append {codec : Codec α}
    (readsBack : ∀ {value : α} {bytes : Bytes}, codec.serialize value = .ok bytes →
      ∀ suffix : Bytes, codec.decode.parse (bytes ++ suffix) = (.ok value, suffix)) :
    codec.Restores fun _ => [] where
  restored written _ := readsBack written
  refused _ impossible := by cases impossible

theorem Restores.congr {codec : Codec α} {demands others : α → List Demand}
    (restores : codec.Restores demands) (same : ∀ value, demands value = others value) :
    codec.Restores others := by
  have equal : demands = others := funext same
  exact equal ▸ restores

/-! ## Entry points -/

section Written

variable {codec : Codec α} {demands : α → List Demand} {value : α} {bytes : Bytes}

/-- What is written of a value is read from the front of any bytes, or refused. -/
theorem Restores.deserializePartial_eq (restores : codec.Restores demands)
    (written : codec.serialize value = .ok bytes) (suffix : Bytes) :
    codec.decode.deserializePartial (bytes ++ suffix)
      = match Demand.refusal? (demands value) with
        | none => .ok ⟨value, bytes.length⟩
        | some error => .error (.consensus error) := by
  split
  · next allowed =>
    exact Decoder.deserializePartial_append (restores.restored written allowed suffix)
  · next error refusal =>
    exact Decoder.deserializePartial_of_error (restores.refused written refusal suffix)

/-- What is written of a value is read as a whole, or refused. -/
theorem Restores.deserialize_eq (restores : codec.Restores demands)
    (written : codec.serialize value = .ok bytes) :
    codec.decode.deserialize bytes
      = match Demand.refusal? (demands value) with
        | none => .ok value
        | some error => .error (.consensus error) := by
  rw [← List.append_nil bytes]
  split
  · next allowed => exact Decoder.deserialize_eq_ok_iff.mpr (restores.restored written allowed [])
  · next error refusal => exact Decoder.deserialize_of_error (restores.refused written refusal [])

end Written

/-- What is written for a value that a whole byte string was read as is the string. -/
theorem Canonical.serialize_eq {codec : Codec α} (canonical : codec.Canonical) {bytes : Bytes}
    {value : α} (read : codec.decode.deserialize bytes = .ok value) :
    codec.serialize value = .ok bytes := by
  obtain ⟨front, written, split⟩ := canonical _ _ _ (Decoder.deserialize_eq_ok_iff.mp read)
  rw [split, List.append_nil]
  exact written

/-! ## Values that stand for others -/

section Wire

variable {inner : Codec β} {wire : α → β}

theorem Restores.refine {demands : β → List Demand} {ofWire : β → Except ConsensusError α}
    (restores : inner.Restores demands) (inverse : ∀ value, ofWire (wire value) = .ok value) :
    (inner.refine wire ofWire).Restores fun value => demands (wire value) where
  restored {value bytes} written allowed suffix := by
    have inside : inner.decode.parse (bytes ++ suffix) = (.ok (wire value), suffix) :=
      restores.restored written allowed suffix
    rw [Codec.refine, Decoder.parse_bind_of_ok inside, inverse]
    rfl
  refused {value bytes error} written refusal suffix := by
    have inside : (inner.decode.parse (bytes ++ suffix)).1 = .error (.consensus error) :=
      restores.refused written refusal suffix
    rw [Codec.refine, Decoder.parse_bind_of_error inside]

/-- What is written for a value read is written for the value that it stands for, as
far as the inner codec can write that. -/
theorem Canonical.refine {ofWire : β → Except ConsensusError α} (canonical : inner.Canonical)
    (inverse : ∀ {onWire value bytes}, inner.serialize onWire = .ok bytes →
      ofWire onWire = .ok value → wire value = onWire) : (inner.refine wire ofWire).Canonical := by
  intro bytes rest value parsed
  obtain ⟨onWire, left, first, second⟩ := Decoder.parse_bind_eq_ok parsed
  obtain ⟨accepted, rfl⟩ := Decoder.parse_ofExcept_eq_ok second
  obtain ⟨front, written, split⟩ := canonical _ _ _ first
  refine ⟨front, ?_, split⟩
  rw [← inverse written accepted] at written
  exact written

/-- Standing for others one to one is standing for others and rejecting none. -/
theorem map_eq_refine (inner : Codec β) (wire : α → β) (ofWire : β → α) :
    inner.map wire ofWire = inner.refine wire fun onWire => .ok (ofWire onWire) := rfl

theorem serialize_map (ofWire : β → α) (value : α) :
    (inner.map wire ofWire).serialize value = inner.serialize (wire value) := rfl

theorem Restores.map {demands : β → List Demand} {ofWire : β → α}
    (restores : inner.Restores demands) (inverse : ∀ value, ofWire (wire value) = value) :
    (inner.map wire ofWire).Restores fun value => demands (wire value) := by
  rw [map_eq_refine]
  exact restores.refine fun value => congrArg Except.ok (inverse value)

theorem Canonical.map {ofWire : β → α} (canonical : inner.Canonical)
    (inverse : ∀ {onWire bytes}, inner.serialize onWire = .ok bytes →
      wire (ofWire onWire) = onWire) : (inner.map wire ofWire).Canonical := by
  rw [map_eq_refine]
  refine canonical.refine fun written accepted => ?_
  cases accepted
  exact inverse written

end Wire

/-! ## Pairs -/

section Pair

variable {first : Codec α} {second : Codec β}

theorem serialize_pair_eq_ok {value : α × β} {bytes : Bytes} :
    (first.pair second).serialize value = .ok bytes
      ↔ ∃ front back, first.serialize value.1 = .ok front ∧ second.serialize value.2 = .ok back
          ∧ bytes = front ++ back :=
  Emission.toExcept_andThen_eq_ok

theorem Restores.pair {firstDemands : α → List Demand} {secondDemands : β → List Demand}
    (firstRestores : first.Restores firstDemands) (secondRestores : second.Restores secondDemands) :
    (first.pair second).Restores fun value => firstDemands value.1 ++ secondDemands value.2 where
  restored {value bytes} written allowed suffix := by
    obtain ⟨front, back, wroteFront, wroteBack, rfl⟩ := serialize_pair_eq_ok.mp written
    obtain ⟨firstAllowed, secondAllowed⟩ := Demand.refusal?_append_eq_none.mp allowed
    rw [List.append_assoc, Codec.pair,
      Decoder.parse_bind_of_ok (firstRestores.restored wroteFront firstAllowed _),
      Decoder.parse_bind_of_ok (secondRestores.restored wroteBack secondAllowed _),
      Decoder.parse_done]
  refused {value bytes error} written refusal suffix := by
    obtain ⟨front, back, wroteFront, wroteBack, rfl⟩ := serialize_pair_eq_ok.mp written
    rw [List.append_assoc, Codec.pair]
    rcases Demand.refusal?_append_eq_some refusal with early | ⟨firstAllowed, late⟩
    · rw [Decoder.parse_bind_of_error (firstRestores.refused wroteFront early _)]
    · rw [Decoder.parse_bind_of_ok (firstRestores.restored wroteFront firstAllowed _),
        Decoder.parse_bind_of_error (secondRestores.refused wroteBack late _)]

theorem Canonical.pair (firstCanonical : first.Canonical) (secondCanonical : second.Canonical) :
    (first.pair second).Canonical := by
  intro bytes rest value parsed
  obtain ⟨a, middle, parsedFirst, behind⟩ := Decoder.parse_bind_eq_ok parsed
  obtain ⟨b, left, parsedSecond, last⟩ := Decoder.parse_bind_eq_ok behind
  cases last
  obtain ⟨front, wroteFront, rfl⟩ := firstCanonical _ _ _ parsedFirst
  obtain ⟨back, wroteBack, rfl⟩ := secondCanonical _ _ _ parsedSecond
  exact ⟨front ++ back, serialize_pair_eq_ok.mpr ⟨front, back, wroteFront, wroteBack, rfl⟩,
    (List.append_assoc _ _ _).symm⟩

end Pair

/-! ## Elements one after the other -/

section Elements

variable {element : Codec α}

/-- The bytes of values one after the other. -/
def serializeAll (element : Codec α) (values : List α) : Except Fault Bytes :=
  (Emission.all (values.map element.encode)).toExcept

theorem serializeAll_cons_eq_ok {value : α} {rest : List α} {bytes : Bytes} :
    element.serializeAll (value :: rest) = .ok bytes
      ↔ ∃ front back, element.serialize value = .ok front ∧ element.serializeAll rest = .ok back
          ∧ bytes = front ++ back :=
  Emission.toExcept_andThen_eq_ok

/-- Values are written one after the other if each can be written. -/
theorem exists_serializeAll {values : List α}
    (each : ∀ value ∈ values, ∃ bytes, element.serialize value = .ok bytes) :
    ∃ bytes, element.serializeAll values = .ok bytes := by
  induction values with
  | nil => exact ⟨[], rfl⟩
  | cons value rest ih =>
    obtain ⟨front, wroteFront⟩ := each value List.mem_cons_self
    obtain ⟨back, wroteBack⟩ := ih fun other inside => each other (List.mem_cons_of_mem _ inside)
    exact ⟨front ++ back, serializeAll_cons_eq_ok.mpr ⟨front, back, wroteFront, wroteBack, rfl⟩⟩

/-- As many elements as were written are read back, up to the first refusal. -/
theorem Restores.times {demands : α → List Demand} (restores : element.Restores demands)
    {values : List α} {bytes : Bytes} (written : element.serializeAll values = .ok bytes)
    (suffix : Bytes) :
    (Demand.refusal? (values.flatMap demands) = none →
        (Decoder.times values.length element.decode).parse (bytes ++ suffix) = (.ok values, suffix))
      ∧ ∀ error, Demand.refusal? (values.flatMap demands) = some error →
        ((Decoder.times values.length element.decode).parse (bytes ++ suffix)).1
          = .error (.consensus error) := by
  induction values generalizing bytes with
  | nil =>
    cases written
    exact ⟨fun _ => rfl, fun _ impossible => by cases impossible⟩
  | cons value rest ih =>
    obtain ⟨front, back, wroteFront, wroteBack, rfl⟩ := serializeAll_cons_eq_ok.mp written
    obtain ⟨restored, refused⟩ := ih wroteBack
    rw [List.flatMap_cons, List.length_cons, Decoder.times_succ, List.append_assoc]
    refine ⟨fun allowed => ?_, fun error refusal => ?_⟩
    · obtain ⟨firstAllowed, restAllowed⟩ := Demand.refusal?_append_eq_none.mp allowed
      rw [Decoder.parse_bind_of_ok (restores.restored wroteFront firstAllowed _),
        Decoder.parse_bind_of_ok (restored restAllowed), Decoder.parse_done]
    · rcases Demand.refusal?_append_eq_some refusal with early | ⟨firstAllowed, late⟩
      · rw [Decoder.parse_bind_of_error (restores.refused wroteFront early _)]
      · rw [Decoder.parse_bind_of_ok (restores.restored wroteFront firstAllowed _),
          Decoder.parse_bind_of_error (refused error late)]

/-- Elements read one after the other are as many as asked for, and were read from
what is written for them. -/
theorem Canonical.times (canonical : element.Canonical) {count : Nat} {bytes rest : Bytes}
    {values : List α}
    (parsed : (Decoder.times count element.decode).parse bytes = (.ok values, rest)) :
    values.length = count
      ∧ ∃ front, element.serializeAll values = .ok front ∧ bytes = front ++ rest := by
  induction count generalizing bytes values with
  | zero =>
    cases parsed
    exact ⟨rfl, [], rfl, rfl⟩
  | succ count ih =>
    rw [Decoder.times_succ] at parsed
    obtain ⟨value, middle, parsedFirst, behind⟩ := Decoder.parse_bind_eq_ok parsed
    obtain ⟨others, left, parsedOthers, last⟩ := Decoder.parse_bind_eq_ok behind
    cases last
    obtain ⟨front, wroteFront, rfl⟩ := canonical _ _ _ parsedFirst
    obtain ⟨length, back, wroteBack, rfl⟩ := ih parsedOthers
    refine ⟨by rw [List.length_cons, length], front ++ back, ?_, (List.append_assoc _ _ _).symm⟩
    exact serializeAll_cons_eq_ok.mpr ⟨front, back, wroteFront, wroteBack, rfl⟩

end Elements

end Codec

end PeerWire
