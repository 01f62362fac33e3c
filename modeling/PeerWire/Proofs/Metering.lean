import PeerWire.Proofs.CodecLaws
import PeerWire.Proofs.Starvation

/-!
# Metered reading

A decoder is a tree of what is taken and set aside, but not all that happens while it is
run can be read off the tree: what a length prefix claims is checked between two of its
nodes, and a
payload is read by a reader of its own in one of them. A metered decoder spells both out.
It can be forgotten (`Metered.erase`) and then is a decoder, and it can be watched: then it
writes down every request with the readers that were open when it was made. Watching
changes nothing (`Metered.watch_eq_run`).

What is asked of a metered decoder is a condition on its nodes (`Metered.Prudent`): no
request is larger than the ceiling as far as the claims before it were let pass, and every
claim was stated by the bytes taken last. The condition is kept by sequencing, with a
postcondition on the value and the bytes taken. From it follows what a watched run looks
like (`Metered.Prudent.bounded`): the requests are within the ceiling whether the run
succeeds or fails, and a claim that is not met is the last event there is.
-/

set_option autoImplicit false

attribute [local instance (high)] instPowNat

namespace PeerWire

/-! ## Claims -/

/-- What a length prefix claims: room for a number of elements, at the size that each is
charged. Unlike a demand, a claim can be made at an infinite size. -/
structure Claim where
  count : Nat
  size : Size

namespace Claim

/-- The check of a claim against the ceiling. -/
def check (claim : Claim) : Except Failure Nat :=
  checkAllocation claim.count claim.size

/-- The charge is a number of bytes, and within the ceiling. -/
def IsMet (claim : Claim) : Prop :=
  ∃ bytes, claim.size = .finite bytes ∧ claim.count * max 1 bytes ≤ maxSequenceSize

/-- The failure of a claim that is not met. At an infinite size it is a fault, whatever the
count. -/
def refusal (claim : Claim) : Failure :=
  match claim.size with
  | .finite bytes => .consensus (Demand.mk claim.count bytes).refusal
  | .infinite => .fault .infiniteSize

/-- The bytes that state a claim: a count in its shortest form, or, where single bytes are
counted, in four bytes. -/
def StatedBy (claim : Claim) (front : Bytes) : Prop :=
  (∃ varInt : VarInt, varInt.value.toNat = claim.count ∧ front = varInt.toBytes)
    ∨ (claim.size = .finite 1 ∧ front.length = 4 ∧ front.toNat = claim.count)

theorem check_of_isMet {claim : Claim} (met : claim.IsMet) : claim.check = .ok claim.count := by
  obtain ⟨count, size⟩ := claim
  obtain ⟨bytes, rfl, fits⟩ := met
  have allowed : (Demand.mk count bytes).room ≤ maxSequenceSize := fits
  rw [check, checkAllocation, Demand.withinCeiling_eq, Demand.refusal?, if_pos allowed]
  rfl

theorem check_of_not_isMet {claim : Claim} (refused : ¬claim.IsMet) :
    claim.check = .error claim.refusal := by
  obtain ⟨count, size⟩ := claim
  cases size with
  | infinite => rfl
  | finite bytes =>
    have large : ¬(Demand.mk count bytes).room ≤ maxSequenceSize :=
      fun fits => refused ⟨bytes, rfl, fits⟩
    rw [check, checkAllocation, Demand.withinCeiling_eq, Demand.refusal?, if_neg large]
    rfl

theorem not_isMet_of_lt {count bytes : Nat} (large : maxSequenceSize < count * max 1 bytes) :
    ¬(Claim.mk count (.finite bytes)).IsMet := by
  rintro ⟨_, ⟨⟩, fits⟩
  exact Nat.not_le.mpr large fits

theorem not_isMet_of_infinite (count : Nat) : ¬(Claim.mk count .infinite).IsMet := by
  rintro ⟨_, ⟨⟩, _⟩

/-- Single bytes are claimed as what they are. -/
theorem IsMet.count_le {count : Nat} (met : (Claim.mk count (.finite 1)).IsMet) :
    count ≤ maxSequenceSize := by
  obtain ⟨bytes, same, fits⟩ := met
  cases same
  rwa [Nat.max_self, Nat.mul_one] at fits

end Claim

/-! ## Metered decoders -/

/-- How a value is read, with the checks of length prefixes and the reading of payloads
spelled out. -/
inductive Metered : Type → Type 1 where
  | done {α : Type} (value : α) : Metered α
  | fail {α : Type} (failure : Failure) : Metered α
  | take {α : Type} (count : Nat) (next : Bytes → Metered α) : Metered α
  /-- Checks what a length prefix claims. -/
  | claim {α : Type} (claim : Claim) (next : Metered α) : Metered α
  | reserve {α : Type} (count : Nat) (size : Size) (next : Metered α) : Metered α
  /-- Reads a byte string of its own to its end. -/
  | inside {α β : Type} (payload : Bytes) (inner : Metered β) (next : β → Metered α) : Metered α

namespace Metered

variable {α β : Type}

/-! ## Forgetting -/

/-- The decoder that is metered. -/
def erase {α : Type} : Metered α → Decoder α
  | .done value => .done value
  | .fail failure => .fail failure
  | .take count next => .take count fun bytes => (next bytes).erase
  | .claim claimed next => (Decoder.ofResult claimed.check).bind fun _ => next.erase
  | .reserve count size next => .reserve count size next.erase
  | .inside payload inner next =>
    (Decoder.ofResult (inner.erase.deserialize payload)).bind fun value => (next value).erase

/-- One metered decoder, and behind it another that depends on the first one's value. -/
def bind {α β : Type} : Metered α → (α → Metered β) → Metered β
  | .done value, next => next value
  | .fail failure, _ => .fail failure
  | .take count rest, next => .take count fun bytes => (rest bytes).bind next
  | .claim claimed rest, next => .claim claimed (rest.bind next)
  | .reserve count size rest, next => .reserve count size (rest.bind next)
  | .inside payload inner rest, next => .inside payload inner fun value => (rest value).bind next

theorem erase_bind (first : Metered α) (next : α → Metered β) :
    (first.bind next).erase = first.erase.bind fun value => (next value).erase := by
  induction first with
  | done value => rfl
  | fail failure => rfl
  | take count rest ih =>
    rw [bind, erase, erase, Decoder.bind]
    congr
    funext bytes
    exact ih bytes next
  | claim claimed rest ih =>
    rw [bind, erase, erase, Decoder.bind_assoc]
    congr
    funext _
    exact ih next
  | reserve count size rest ih =>
    rw [bind, erase, erase, Decoder.bind, ih]
  | inside payload inner rest _ ih =>
    rw [bind, erase, erase, Decoder.bind_assoc]
    congr
    funext value
    exact ih value next

/-- A decoder that checks no length prefix and reads no payload. -/
def ofDecoder : Decoder α → Metered α
  | .done value => .done value
  | .fail failure => .fail failure
  | .take count next => .take count fun bytes => ofDecoder (next bytes)
  | .reserve count size next => .reserve count size (ofDecoder next)

theorem erase_ofDecoder (decoder : Decoder α) : (ofDecoder decoder).erase = decoder := by
  induction decoder with
  | done value => rfl
  | fail failure => rfl
  | take count next ih => simp only [ofDecoder, erase, ih]
  | reserve count size next ih => simp only [ofDecoder, erase, ih]

/-- The values of a metered decoder run a number of times. -/
def times (element : Metered α) : (count : Nat) → Metered (List α)
  | 0 => .done []
  | count + 1 => element.bind fun value => (element.times count).bind fun values =>
      .done (value :: values)

theorem erase_times (element : Metered α) (count : Nat) :
    (element.times count).erase = .times count element.erase := by
  induction count with
  | zero => rfl
  | succ count ih => simp only [times, Decoder.times_succ, erase_bind, ih, erase]

end Metered

/-! ## Watching -/

/-- What a reader is asked for, or a check is asked about. -/
inductive Request where
  | bytes (count : Nat)
  | claim (claim : Claim)
  | room (count : Nat) (size : Size)

/-- A request, with the reader that the bytes before it came from, as it was then, and
the readers outside of that one. -/
structure Event where
  request : Request
  reader : Reader Cursor
  outside : List (Reader Cursor)

namespace Event

/-- The readers that were open, the innermost first. -/
def readers (event : Event) : List (Reader Cursor) :=
  event.reader :: event.outside

/-- An event of a payload, seen from the reader that the payload was read from. -/
def within (outer : Reader Cursor) (event : Event) : Event :=
  { event with outside := event.outside ++ [outer] }

end Event

/-- What a watched run comes to: the outcome and the reader afterwards, the readers of
payloads that were open when it ended, the innermost first, and what happened. -/
structure Watched (α : Type) where
  outcome : Except Failure α
  reader : Reader Cursor
  inner : List (Reader Cursor)
  log : List Event

namespace Watched

variable {α : Type}

/-- The readers that were open when a run ended, the innermost first. -/
def readers (watched : Watched α) : List (Reader Cursor) :=
  watched.inner ++ [watched.reader]

/-- A run with events in front of its own. -/
def behind (earlier : List Event) (watched : Watched α) : Watched α :=
  { watched with log := earlier ++ watched.log }

end Watched

namespace Metered

variable {α β : Type}

/-- Runs a metered decoder over a reader and writes down what happens. -/
def watch {α : Type} : Metered α → Reader Cursor → Watched α
  | .done value, reader => ⟨.ok value, reader, [], []⟩
  | .fail failure, reader => ⟨.error failure, reader, [], []⟩
  | .take count next, reader =>
    match reader.readBytes count with
    | (.ok bytes, after) => ((next bytes).watch after).behind [⟨.bytes count, reader, []⟩]
    | (.error error, after) =>
      ⟨.error (.consensus error), after, [], [⟨.bytes count, reader, []⟩]⟩
  | .claim claimed next, reader =>
    match claimed.check with
    | .ok _ => (next.watch reader).behind [⟨.claim claimed, reader, []⟩]
    | .error failure => ⟨.error failure, reader, [], [⟨.claim claimed, reader, []⟩]⟩
  | .reserve count size next, reader =>
    (next.watch reader).behind [⟨.room count size, reader, []⟩]
  | .inside payload inner next, reader =>
    let opened := inner.watch (.ofSource (Cursor.ofBytes payload))
    let earlier := opened.log.map (Event.within reader)
    match inner.erase.deserialize payload with
    | .ok value => ((next value).watch reader).behind earlier
    | .error failure => ⟨.error failure, reader, opened.readers, earlier⟩

/-- Watching a run changes neither its outcome nor its reader. -/
theorem watch_eq_run (tree : Metered α) (reader : Reader Cursor) :
    ((tree.watch reader).outcome, (tree.watch reader).reader) = tree.erase.run reader := by
  induction tree generalizing reader with
  | done value => rfl
  | fail failure => rfl
  | take count next ih =>
    rw [watch, erase, Decoder.run]
    obtain ⟨outcome, after⟩ := reader.readBytes count
    cases outcome with
    | ok bytes => exact ih bytes after
    | error error => rfl
  | claim claimed next ih =>
    rw [watch, erase]
    cases claimed.check with
    | ok count => exact ih reader
    | error failure => rfl
  | reserve count size next ih => exact ih reader
  | inside payload inner next _ ih =>
    rw [watch, erase]
    cases inner.erase.deserialize payload with
    | ok value => exact ih value reader
    | error failure => rfl

end Metered

/-! ## Bounded runs -/

/-- The bytes that a cursor has behind it. -/
def Cursor.taken (cursor : Cursor) : Bytes :=
  cursor.buffer.take cursor.offset

theorem Reader.taken_skip (reader : Reader Cursor) (count : Nat) :
    (reader.skip count).source.taken
      = reader.source.taken ++ reader.source.rest.take count := by
  have ahead := reader.source.rest_eq
  change reader.source.buffer.take (reader.source.skip count).offset = _
  rw [Cursor.offset_skip, List.take_add, ← ahead, ← List.take_eq_take_min]
  rfl

/-- The failures that only a claim which is not met can end a run in: the two errors for
claims over the ceiling, and all faults. -/
def Failure.IsRefusal : Failure → Prop
  | .consensus (.parseFailed .invalidLength) => True
  | .consensus (.oversizedAllocation _ _) => True
  | .consensus _ => False
  | .fault _ => True

namespace Event

/-- Within the ceiling, or a claim that was stated by the bytes taken last. -/
def Allowed (event : Event) : Prop :=
  match event.request with
  | .bytes count => count ≤ maxSequenceSize
  | .room count size => (Claim.mk count size).IsMet
  | .claim claim => ∃ front, claim.StatedBy front ∧ front <:+ event.reader.source.taken

/-- A claim that is not met. -/
def Exceeds (event : Event) (claim : Claim) : Prop :=
  event.request = .claim claim ∧ ¬claim.IsMet

end Event

/-- A run that stays within the ceiling. A claim that is not met ends the run, with no
reader moved since; and a run does not end in a refusal without one. -/
structure Watched.Bounded {α : Type} (watched : Watched α) : Prop where
  allowed : ∀ event ∈ watched.log, event.Allowed
  refused : ∀ event ∈ watched.log, ∀ claim, event.Exceeds claim →
    watched.outcome = .error claim.refusal
      ∧ watched.readers = event.readers
      ∧ ∃ earlier, watched.log = earlier ++ [event]
  blamed : ∀ failure : Failure, watched.outcome = .error failure → failure.IsRefusal →
    ∃ event ∈ watched.log, ∃ claim, event.Exceeds claim

namespace Watched

variable {α : Type} {watched : Watched α}

/-- Events in front of a bounded run keep it bounded, if none of them is a claim that is
not met. -/
theorem Bounded.behind (bounded : watched.Bounded) {earlier : List Event}
    (allowed : ∀ event ∈ earlier, event.Allowed)
    (passed : ∀ event ∈ earlier, ∀ claim, ¬ event.Exceeds claim) :
    (watched.behind earlier).Bounded where
  allowed event inside := by
    rcases List.mem_append.mp inside with before | own
    · exact allowed event before
    · exact bounded.allowed event own
  refused event inside claim exceeds := by
    rcases List.mem_append.mp inside with before | own
    · exact absurd exceeds (passed event before claim)
    · obtain ⟨outcome, readers, before, log⟩ := bounded.refused event own claim exceeds
      refine ⟨outcome, readers, earlier ++ before, ?_⟩
      rw [List.append_assoc, ← log]
      rfl
  blamed failure failed refusal := by
    obtain ⟨event, own, claim, exceeds⟩ := bounded.blamed failure failed refusal
    exact ⟨event, List.mem_append_right earlier own, claim, exceeds⟩

/-- One event in front, which is a claim only if that was met. -/
theorem Bounded.behind_single (bounded : watched.Bounded) {event : Event}
    (allowed : event.Allowed) (passed : ∀ claim, event.request = .claim claim → claim.IsMet) :
    (watched.behind [event]).Bounded := by
  refine bounded.behind ?_ ?_
  · intro own inside
    cases List.mem_singleton.mp inside
    exact allowed
  · intro own inside claim exceeds
    cases List.mem_singleton.mp inside
    exact exceeds.2 (passed claim exceeds.1)

/-- A run that asks for nothing is bounded, unless it ends in a refusal. -/
theorem bounded_of_silent {outcome : Except Failure α} {reader : Reader Cursor}
    (other : ∀ failure : Failure, outcome = .error failure → ¬ failure.IsRefusal) :
    (Watched.mk outcome reader [] []).Bounded where
  allowed event inside := by cases inside
  refused event inside := by cases inside
  blamed failure failed refusal := absurd refusal (other failure failed)

end Watched

/-! ## Prudent decoders -/

namespace Metered

variable {α β : Type}

/-- No request of the decoder is larger than the ceiling as far as the claims in front of
it were met, every claim was stated by the bytes taken last, and a value satisfies the
postcondition with the bytes taken by then. -/
def Prudent {α : Type} : Metered α → (post : α → Bytes → Prop) → (taken : Bytes) → Prop
  | .done value, post, taken => post value taken
  | .fail failure, _, _ => ¬ failure.IsRefusal
  | .take count next, post, taken =>
    count ≤ maxSequenceSize
      ∧ ∀ bytes : Bytes, bytes.length = count → (next bytes).Prudent post (taken ++ bytes)
  | .claim claimed next, post, taken =>
    (∃ front, claimed.StatedBy front ∧ front <:+ taken)
      ∧ (claimed.IsMet → next.Prudent post taken)
  | .reserve count size next, post, taken =>
    (Claim.mk count size).IsMet ∧ next.Prudent post taken
  | .inside _ inner next, post, taken =>
    inner.Prudent (fun _ _ => True) [] ∧ ∀ value, (next value).Prudent post taken

theorem Prudent.mono {tree : Metered α} {post weaker : α → Bytes → Prop} {taken : Bytes}
    (prudent : tree.Prudent post taken) (implied : ∀ value since, post value since →
      weaker value since) : tree.Prudent weaker taken := by
  induction tree generalizing taken with
  | done value => exact implied value taken prudent
  | fail failure => exact prudent
  | take count next ih =>
    exact ⟨prudent.1, fun bytes size => ih bytes (prudent.2 bytes size) implied⟩
  | claim claimed next ih => exact ⟨prudent.1, fun met => ih (prudent.2 met) implied⟩
  | reserve count size next ih => exact ⟨prudent.1, ih prudent.2 implied⟩
  | inside payload inner next _ ih =>
    exact ⟨prudent.1, fun value => ih value (prudent.2 value) implied⟩

/-- The second decoder may rely on what the first one ensures. -/
theorem Prudent.bind {first : Metered α} {next : α → Metered β} {between : α → Bytes → Prop}
    {post : β → Bytes → Prop} {taken : Bytes} (prudent : first.Prudent between taken)
    (behind : ∀ value since, between value since → (next value).Prudent post since) :
    (first.bind next).Prudent post taken := by
  induction first generalizing taken with
  | done value => exact behind value taken prudent
  | fail failure => exact prudent
  | take count rest ih =>
    exact ⟨prudent.1, fun bytes size => ih bytes (prudent.2 bytes size) behind⟩
  | claim claimed rest ih => exact ⟨prudent.1, fun met => ih (prudent.2 met) behind⟩
  | reserve count size rest ih => exact ⟨prudent.1, ih prudent.2 behind⟩
  | inside payload inner rest _ ih =>
    exact ⟨prudent.1, fun value => ih value (prudent.2 value) behind⟩

/-- Prudent wherever it stands. -/
def Careful (tree : Metered α) : Prop :=
  ∀ taken, tree.Prudent (fun _ _ => True) taken

theorem Careful.bind {first : Metered α} {next : α → Metered β} (careful : first.Careful)
    (behind : ∀ value, (next value).Careful) : (first.bind next).Careful :=
  fun taken => (careful taken).bind fun value since _ => behind value since

theorem Careful.times {element : Metered α} (careful : element.Careful) (count : Nat) :
    (element.times count).Careful := by
  induction count with
  | zero => exact fun _ => trivial
  | succ count ih => exact careful.bind fun value => ih.bind fun values _ => trivial

/-! ## What a watched run looks like -/

section Steps

variable {reader : Reader Cursor}

theorem watch_take_of_le {count : Nat} (next : Bytes → Metered α) (backed : reader.backed = true)
    (held : count ≤ reader.source.rest.length) :
    (take count next).watch reader
      = ((next (reader.source.rest.take count)).watch (reader.skip count)).behind
          [⟨.bytes count, reader, []⟩] := by
  rw [watch, Reader.readBytes_of_le backed held]

theorem watch_take_of_lt {count : Nat} (next : Bytes → Metered α) (backed : reader.backed = true)
    (short : reader.source.rest.length < count) :
    (take count next).watch reader
      = ⟨.error (.consensus (.io (.exhausted count reader.source.rest.length))),
          reader.skip reader.source.rest.length, [], [⟨.bytes count, reader, []⟩]⟩ := by
  rw [watch, Reader.readBytes_of_lt backed short]

theorem watch_claim_of_isMet {claimed : Claim} (next : Metered α) (met : claimed.IsMet) :
    (claim claimed next).watch reader
      = (next.watch reader).behind [⟨.claim claimed, reader, []⟩] := by
  rw [watch, Claim.check_of_isMet met]

theorem watch_claim_of_not_isMet {claimed : Claim} (next : Metered α)
    (refused : ¬claimed.IsMet) :
    (claim claimed next).watch reader
      = ⟨.error claimed.refusal, reader, [], [⟨.claim claimed, reader, []⟩]⟩ := by
  rw [watch, Claim.check_of_not_isMet refused]

end Steps

/-- Reading a payload to its end, by a watched run over it: the outcome of the run, unless
bytes are left over. -/
theorem deserialize_eq_watch (inner : Metered β) (payload : Bytes) :
    inner.erase.deserialize payload
      = match (inner.watch (.ofSource (Cursor.ofBytes payload))).outcome with
        | .error failure => .error failure
        | .ok value =>
          if (inner.watch (.ofSource (Cursor.ofBytes payload))).reader.consumed
              = payload.length then
            .ok value
          else
            .error (.consensus (.parseFailed (.trailingBytes (payload.length
              - (inner.watch (.ofSource (Cursor.ofBytes payload))).reader.consumed)))) := by
  rw [Decoder.deserialize, Decoder.deserializePartial, ← watch_eq_run]
  cases (inner.watch (.ofSource (Cursor.ofBytes payload))).outcome with
  | error failure => rfl
  | ok value => rfl

end Metered

namespace Watched

variable {α β : Type} {opened : Watched β}

/-- Seen from outside, a bounded run still asks for nothing beyond the ceiling. -/
theorem Bounded.allowed_within (bounded : opened.Bounded) (outer : Reader Cursor) :
    ∀ event ∈ opened.log.map (Event.within outer), event.Allowed := by
  intro event inside
  obtain ⟨own, found, rfl⟩ := List.mem_map.mp inside
  exact bounded.allowed own found

/-- A run that fails since a payload failed is bounded as the reading of the payload was. -/
theorem Bounded.enclose (bounded : opened.Bounded) (outer : Reader Cursor) {failure : Failure}
    (fails : ∀ found, opened.outcome = .error found → failure = found)
    (other : opened.outcome = .error failure ∨ ¬ failure.IsRefusal) :
    (Watched.mk (.error failure : Except Failure α) outer opened.readers
      (opened.log.map (Event.within outer))).Bounded where
  allowed := bounded.allowed_within outer
  refused event inside claim exceeds := by
    obtain ⟨own, found, rfl⟩ := List.mem_map.mp inside
    obtain ⟨outcome, readers, before, log⟩ := bounded.refused own found claim exceeds
    refine ⟨?_, ?_, before.map (Event.within outer), ?_⟩
    · rw [fails _ outcome]
    · rw [Watched.readers, readers]
      rfl
    · rw [log, List.map_append]
      rfl
  blamed found failed refusal := by
    cases failed
    rcases other with outcome | none
    · obtain ⟨event, own, claim, exceeds⟩ := bounded.blamed failure outcome refusal
      exact ⟨event.within outer, List.mem_map_of_mem own, claim, exceeds⟩
    · exact absurd refusal none

/-- A claim that is not met is where a run stops. -/
theorem bounded_of_refused {reader : Reader Cursor} {claim : Claim}
    (stated : ∃ front, claim.StatedBy front ∧ front <:+ reader.source.taken)
    (refused : ¬claim.IsMet) :
    (Watched.mk (.error claim.refusal : Except Failure α) reader []
      [⟨.claim claim, reader, []⟩]).Bounded where
  allowed event inside := by
    cases List.mem_singleton.mp inside
    exact stated
  refused event inside other exceeds := by
    cases List.mem_singleton.mp inside
    cases exceeds.1
    exact ⟨rfl, rfl, [], rfl⟩
  blamed failure failed refusal := ⟨_, List.mem_singleton_self _, claim, rfl, refused⟩

end Watched

namespace Metered

variable {α β : Type}

/-- A prudent decoder is bounded, watched over any reader. -/
theorem Prudent.bounded {tree : Metered α} {post : α → Bytes → Prop} {reader : Reader Cursor}
    (prudent : tree.Prudent post reader.source.taken) (backed : reader.backed = true) :
    (tree.watch reader).Bounded := by
  -- On the tree, for every reader: a node puts its own event in front of what happens behind
  -- it, and a payload the events of a run of its own.
  induction tree generalizing reader with
  | done value => exact Watched.bounded_of_silent fun failure failed => by cases failed
  | fail failure =>
    refine Watched.bounded_of_silent fun found failed => ?_
    cases failed
    exact prudent
  | take count next ih =>
    obtain ⟨fits, behind⟩ := prudent
    rcases Nat.lt_or_ge reader.source.rest.length count with short | held
    · rw [watch_take_of_lt next backed short]
      refine Watched.Bounded.behind_single (Watched.bounded_of_silent ?_) fits ?_
      · intro failure failed
        cases failed
        exact id
      · intro claim same
        cases same
    · have size : (reader.source.rest.take count).length = count := by
        rw [List.length_take, Nat.min_eq_left held]
      have since := behind _ size
      rw [← Reader.taken_skip] at since
      rw [watch_take_of_le next backed held]
      exact (ih _ since backed).behind_single fits fun claim same => by cases same
  | claim claimed next ih =>
    obtain ⟨stated, behind⟩ := prudent
    by_cases met : claimed.IsMet
    · rw [watch_claim_of_isMet next met]
      refine (ih (behind met) backed).behind_single stated fun other same => ?_
      cases same
      exact met
    · rw [watch_claim_of_not_isMet next met]
      exact Watched.bounded_of_refused stated met
  | reserve count size next ih =>
    obtain ⟨met, behind⟩ := prudent
    exact (ih behind backed).behind_single met fun claim same => by cases same
  | inside payload inner next ihInner ih =>
    obtain ⟨careful, behind⟩ := prudent
    have opened : (inner.watch (.ofSource (Cursor.ofBytes payload))).Bounded :=
      ihInner careful rfl
    have read := deserialize_eq_watch inner payload
    rw [watch]
    cases outcome : inner.erase.deserialize payload with
    | ok value =>
      -- A claim that is not met would have failed the payload, which was read.
      refine (ih value (behind value) backed).behind (opened.allowed_within reader) ?_
      intro event inside claim exceeds
      obtain ⟨own, found, rfl⟩ := List.mem_map.mp inside
      rw [(opened.refused own found claim exceeds).1, outcome] at read
      cases read
    | error failure =>
      refine opened.enclose reader ?_ ?_
      · intro found failed
        rw [failed, outcome] at read
        exact Except.error.inj read
      · rw [outcome] at read
        split at read
        · next found failed =>
          cases read
          exact .inl failed
        · split at read
          · cases read
          · -- The payload was read, with bytes left over: that is no refusal.
            cases read
            exact .inr id

end Metered

end PeerWire
