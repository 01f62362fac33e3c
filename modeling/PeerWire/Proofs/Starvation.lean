import PeerWire.Proofs.Parsing

/-!
# Decoders that run short

A decoder starves on a byte string when it comes to ask for more bytes than are left.
Whether it does is all that bytes further on can change. A decoder that does not starve
makes the same of any longer string and leaves the rest of it alone (`parse_append`).
It does not starve on the bytes that it has taken, and starves on anything shorter
(`starves_take_iff`).

A decoder that starves reports that the input has ended, but not every such report
comes from starving: a decoder may end in one on its own account, as one that reads a
byte string inside another does. What a decoder ends in when it does not starve is the
subject of `Ends`, a condition on its leaves. A decoder is decisive when no leaf is an
input error; then such an error means that the decoder has starved
(`Decisive.starves_of_io`), and has taken all there was (`consumed_of_starves`).
-/

set_option autoImplicit false

namespace PeerWire

namespace Decoder

variable {α β : Type}

/-! ## Starving -/

/-- Whether a decoder comes to ask for more bytes than are left. -/
def starves : Decoder α → Bytes → Bool
  | .done _, _ => false
  | .fail _, _ => false
  | .take count next, bytes =>
    if count ≤ bytes.length then (next (bytes.take count)).starves (bytes.drop count) else true
  | .reserve _ _ next, bytes => next.starves bytes

theorem starves_take_of_le {count : Nat} {bytes : Bytes} (held : count ≤ bytes.length)
    (next : Bytes → Decoder α) :
    (take count next).starves bytes = (next (bytes.take count)).starves (bytes.drop count) := by
  rw [starves, if_pos held]

theorem starves_take_of_lt {count : Nat} {bytes : Bytes} (short : bytes.length < count)
    (next : Bytes → Decoder α) : (take count next).starves bytes = true := by
  rw [starves, if_neg (Nat.not_le.mpr short)]

/-- A decoder that does not starve finds the first bytes that it asks for. -/
theorem le_of_starves_take {count : Nat} {bytes : Bytes} {next : Bytes → Decoder α}
    (enough : (take count next).starves bytes = false) :
    count ≤ bytes.length ∧ (next (bytes.take count)).starves (bytes.drop count) = false := by
  rcases Nat.lt_or_ge bytes.length count with short | held
  · rw [starves_take_of_lt short] at enough
    cases enough
  · rw [starves_take_of_le held] at enough
    exact ⟨held, enough⟩

/-- One decoder behind another starves if the first does, or has a value behind which
the second does. -/
theorem starves_bind (decoder : Decoder α) (next : α → Decoder β) (bytes : Bytes) :
    (decoder.bind next).starves bytes
      = match decoder.parse bytes with
        | (.ok value, rest) => (next value).starves rest
        | (.error _, _) => decoder.starves bytes := by
  induction decoder generalizing bytes with
  | done value => rfl
  | fail failure => rfl
  | take count rest ih =>
    rcases Nat.lt_or_ge bytes.length count with short | held
    · rw [bind, starves_take_of_lt short, starves_take_of_lt short, parse_take_of_lt short]
    · rw [bind, starves_take_of_le held, starves_take_of_le held, parse_take_of_le held]
      exact ih _ _
  | reserve count size rest ih => exact ih bytes

/-- A decoder that starves reports the end of the input, having taken all of it. -/
theorem parse_of_starves {decoder : Decoder α} {bytes : Bytes}
    (short : decoder.starves bytes = true) :
    ∃ needed got,
      decoder.parse bytes = (.error (.consensus (.io (.exhausted needed got))), []) := by
  induction decoder generalizing bytes with
  | done value => cases short
  | fail failure => cases short
  | take count next ih =>
    rcases Nat.lt_or_ge bytes.length count with missing | held
    · exact ⟨count, bytes.length, parse_take_of_lt missing next⟩
    · rw [starves_take_of_le held] at short
      rw [parse_take_of_le held]
      exact ih _ short
  | reserve count size next ih => exact ih short

/-- What a decoder that does not starve makes of a byte string it makes of any longer
one, and what follows is left. -/
theorem parse_append {decoder : Decoder α} {bytes : Bytes}
    (enough : decoder.starves bytes = false) (suffix : Bytes) :
    decoder.parse (bytes ++ suffix)
      = ((decoder.parse bytes).1, (decoder.parse bytes).2 ++ suffix) := by
  induction decoder generalizing bytes with
  | done value => rfl
  | fail failure => rfl
  | take count next ih =>
    obtain ⟨held, behind⟩ := le_of_starves_take enough
    have longer : count ≤ (bytes ++ suffix).length := by
      rw [List.length_append]
      omega
    rw [parse_take_of_le longer, parse_take_of_le held, List.take_append_of_le_length held,
      List.drop_append_of_le_length held]
    exact ih _ behind
  | reserve count size next ih => exact ih enough

/-- Cut anywhere inside what a decoder takes, a byte string starves it; cut behind that,
it does not. -/
theorem starves_take_iff {decoder : Decoder α} {bytes : Bytes}
    (enough : decoder.starves bytes = false) (length : Nat) :
    decoder.starves (bytes.take length) = true
      ↔ length < bytes.length - (decoder.parse bytes).2.length := by
  induction decoder generalizing bytes length with
  | done value => simp only [starves, parse, Bool.false_eq_true, Nat.sub_self, Nat.not_lt_zero]
  | fail failure => simp only [starves, parse, Bool.false_eq_true, Nat.sub_self, Nat.not_lt_zero]
  | take count next ih =>
    obtain ⟨held, behind⟩ := le_of_starves_take enough
    have left := (parse_suffix (next (bytes.take count)) (bytes.drop count)).length_le
    rw [parse_take_of_le held]
    rw [List.length_drop] at left
    -- The cut is inside the bytes asked for here, or inside what is asked for behind them.
    rcases Nat.lt_or_ge length count with cut | reached
    · have short : (bytes.take length).length < count := by
        rw [List.length_take]
        omega
      rw [starves_take_of_lt short]
      simp only [true_iff]
      omega
    · have still : count ≤ (bytes.take length).length := by
        rw [List.length_take]
        omega
      rw [starves_take_of_le still, List.take_take, Nat.min_eq_left reached, List.drop_take,
        ih _ behind, List.length_drop]
      omega
  | reserve count size next ih => exact ih enough length

/-- A decoder that does not starve needs no more than the bytes it takes. -/
theorem exists_parse_front {decoder : Decoder α} {bytes : Bytes}
    (enough : decoder.starves bytes = false) :
    ∃ front, bytes = front ++ (decoder.parse bytes).2 ∧ decoder.starves front = false
      ∧ decoder.parse front = ((decoder.parse bytes).1, []) := by
  obtain ⟨front, split⟩ := parse_suffix decoder bytes
  have length := congrArg List.length split
  rw [List.length_append] at length
  have isFront : bytes.take front.length = front := by
    rw [← split, List.take_left]
  have fed : decoder.starves front = false := by
    rw [← isFront, ← Bool.not_eq_true, starves_take_iff enough]
    omega
  have extended := parse_append fed (decoder.parse bytes).2
  rw [split] at extended
  have nothing : (decoder.parse front).2 = [] := by
    have same := congrArg Prod.snd extended
    exact List.append_cancel_right (same.symm.trans (List.nil_append _).symm)
  refine ⟨front, split.symm, fed, ?_⟩
  rw [← nothing]
  exact Prod.ext (congrArg Prod.fst extended).symm rfl

theorem starves_eq_false_of_ok {decoder : Decoder α} {bytes rest : Bytes} {value : α}
    (parsed : decoder.parse bytes = (.ok value, rest)) : decoder.starves bytes = false := by
  rw [← Bool.not_eq_true]
  intro short
  obtain ⟨needed, got, failed⟩ := parse_of_starves short
  rw [parsed] at failed
  cases failed

/-- A failure of another kind is not for want of bytes. -/
theorem starves_eq_false_of_error {decoder : Decoder α} {bytes : Bytes} {failure : Failure}
    (failed : (decoder.parse bytes).1 = .error failure)
    (other : ∀ problem, failure ≠ .consensus (.io problem)) : decoder.starves bytes = false := by
  rw [← Bool.not_eq_true]
  intro short
  obtain ⟨needed, got, parsed⟩ := parse_of_starves short
  rw [parsed] at failed
  cases failed
  exact other _ rfl

/-! ## The ends of a decoder -/

/-- Every end of a decoder satisfies a condition, whatever bytes lead to it. -/
def Ends (condition : Except Failure α → Prop) : Decoder α → Prop
  | .done value => condition (.ok value)
  | .fail failure => condition (.error failure)
  | .take count next => ∀ bytes : Bytes, bytes.length = count → (next bytes).Ends condition
  | .reserve _ _ next => next.Ends condition

/-- What a decoder that does not starve makes of a byte string is one of its ends. -/
theorem Ends.parse {condition : Except Failure α → Prop} {decoder : Decoder α}
    (ends : decoder.Ends condition) {bytes : Bytes} (enough : decoder.starves bytes = false) :
    condition (decoder.parse bytes).1 := by
  induction decoder generalizing bytes with
  | done value => exact ends
  | fail failure => exact ends
  | take count next ih =>
    obtain ⟨held, behind⟩ := le_of_starves_take enough
    rw [parse_take_of_le held]
    have size : (bytes.take count).length = count := by
      rw [List.length_take, Nat.min_eq_left held]
    exact ih _ (ends _ size) behind
  | reserve count size next ih => exact ih ends enough

/-- What a decoder makes of a source is one of its ends, or the source failed. -/
theorem Ends.run {σ : Type} [ByteSource σ] {condition : Except Failure α → Prop}
    {decoder : Decoder α} (ends : decoder.Ends condition) (reader : Reader σ) :
    condition (decoder.run reader).1
      ∨ ∃ error, (decoder.run reader).1 = .error (.consensus error) := by
  induction decoder generalizing reader with
  | done value => exact .inl ends
  | fail failure => exact .inl ends
  | take count next ih =>
    rw [Decoder.run]
    rcases read : reader.readBytes count with ⟨outcome, after⟩
    cases outcome with
    | error error => exact .inr ⟨error, rfl⟩
    | ok bytes => exact ih bytes (ends bytes (Reader.length_of_readBytes read)) after
  | reserve count size next ih => exact ih ends reader

/-- The ends of one decoder behind another are failures of the first, and ends of the
second behind a value of the first. -/
theorem Ends.bind {before : Except Failure α → Prop} {condition : Except Failure β → Prop}
    {decoder : Decoder α} {next : α → Decoder β} (first : decoder.Ends before)
    (behind : ∀ value, before (.ok value) → (next value).Ends condition)
    (failed : ∀ failure, before (.error failure) → condition (.error failure)) :
    (decoder.bind next).Ends condition := by
  induction decoder with
  | done value => exact behind value first
  | fail failure => exact failed failure first
  | take count rest ih => exact fun bytes size => ih bytes (first bytes size)
  | reserve count size rest ih => exact ih first

/-! ## Decisive decoders -/

/-- A value, or a failure that is not put down to the input. -/
def IsDecided : Except Failure α → Prop
  | .error (.consensus (.io _)) => False
  | _ => True

/-- No end of the decoder is an input error. -/
def Decisive (decoder : Decoder α) : Prop :=
  decoder.Ends IsDecided

/-- An input error of a decisive decoder comes from starving. -/
theorem Decisive.starves_of_io {decoder : Decoder α} (decisive : decoder.Decisive) {bytes : Bytes}
    {problem : IoProblem} (failed : (decoder.parse bytes).1 = .error (.consensus (.io problem))) :
    decoder.starves bytes = true := by
  rw [← Bool.not_eq_false]
  intro enough
  have decided := decisive.parse enough
  rw [failed] at decided
  exact decided

theorem Decisive.bind {decoder : Decoder α} {next : α → Decoder β} (first : decoder.Decisive)
    (behind : ∀ value, (next value).Decisive) : (decoder.bind next).Decisive := by
  refine Ends.bind first (fun value _ => behind value) ?_
  intro failure decided
  cases failure with
  | fault fault => trivial
  | consensus error =>
    cases error with
    | io problem => exact decided
    | _ => trivial

/-- A check is decisive if it never blames the input. -/
theorem decisive_ofExcept {checked : Except ConsensusError α}
    (other : ∀ problem, checked ≠ .error (.io problem)) : (ofExcept checked).Decisive := by
  cases checked with
  | ok value => trivial
  | error error =>
    cases error with
    | io problem => exact other problem rfl
    | _ => trivial

theorem Decisive.times {element : Decoder α} (decisive : element.Decisive) (count : Nat) :
    (Decoder.times count element).Decisive := by
  induction count with
  | zero => trivial
  | succ count ih =>
    rw [times_succ]
    exact decisive.bind fun value => ih.bind fun values => trivial

/-! ## Entry points -/

theorem deserializePartial_eq_error_iff {decoder : Decoder α} {bytes : Bytes} {failure : Failure} :
    decoder.deserializePartial bytes = .error failure
      ↔ (decoder.parse bytes).1 = .error failure := by
  rw [deserializePartial_eq]
  obtain ⟨outcome, rest⟩ := decoder.parse bytes
  cases outcome with
  | ok value => simp
  | error found => simp

section Read

variable {decoder : Decoder α} {bytes : Bytes} {value : α} {consumed : Nat}

/-- The bytes that a value was read from are read as the same value, whatever follows. -/
theorem deserializePartial_take_append
    (read : decoder.deserializePartial bytes = .ok ⟨value, consumed⟩) (suffix : Bytes) :
    decoder.deserializePartial (bytes.take consumed ++ suffix) = .ok ⟨value, consumed⟩ := by
  obtain ⟨within, parsed⟩ := parse_of_deserializePartial read
  obtain ⟨front, split, fed, alone⟩ := exists_parse_front (starves_eq_false_of_ok parsed)
  rw [parsed] at split alone
  have isFront : bytes.take consumed = front :=
    List.append_cancel_right ((List.take_append_drop consumed bytes).trans split)
  have size : front.length = consumed := by
    rw [← isFront, List.length_take, Nat.min_eq_left within]
  have extended := parse_append fed suffix
  rw [alone] at extended
  rw [isFront, ← size]
  exact deserializePartial_append extended

/-- Fewer bytes than a value was read from are too few. -/
theorem exists_deserializePartial_take
    (read : decoder.deserializePartial bytes = .ok ⟨value, consumed⟩) {length : Nat}
    (cut : length < consumed) :
    ∃ needed got, decoder.deserializePartial (bytes.take length)
      = .error (.consensus (.io (.exhausted needed got))) := by
  obtain ⟨within, parsed⟩ := parse_of_deserializePartial read
  have short : decoder.starves (bytes.take length) = true := by
    rw [starves_take_iff (starves_eq_false_of_ok parsed), parsed, List.length_drop]
    omega
  obtain ⟨needed, got, failed⟩ := parse_of_starves short
  exact ⟨needed, got, deserializePartial_eq_error_iff.mpr (congrArg Prod.fst failed)⟩

end Read

/-- A failure that is not put down to the input stays, whatever follows. -/
theorem deserializePartial_append_of_error {decoder : Decoder α} {bytes : Bytes}
    {failure : Failure} (failed : decoder.deserializePartial bytes = .error failure)
    (other : ∀ problem, failure ≠ .consensus (.io problem)) (suffix : Bytes) :
    decoder.deserializePartial (bytes ++ suffix) = .error failure := by
  rw [deserializePartial_eq_error_iff] at failed ⊢
  rw [parse_append (starves_eq_false_of_error failed other)]
  exact failed

/-- A decoder that starves has counted all the bytes there were. -/
theorem consumed_of_starves {decoder : Decoder α} {bytes : Bytes}
    (short : decoder.starves bytes = true) :
    (decoder.run (.ofSource (Cursor.ofBytes bytes))).2.consumed = bytes.length := by
  obtain ⟨needed, got, parsed⟩ := parse_of_starves short
  rw [run_cursor decoder (.ofSource (Cursor.ofBytes bytes)) rfl]
  simp only [Reader.ofSource, Reader.skip, Cursor.rest_ofBytes, parsed, List.length_nil,
    Nat.sub_zero, Nat.zero_add]

end Decoder

end PeerWire
