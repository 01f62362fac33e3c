import Mathlib.Data.Int.Bitwise
import PeerWire.ServiceFlags

/-!
# Masks of services, bit by bit

A mask is changed by the services of another one, which are added or removed. Here a change is
what it is for integers without a limit: the union of two masks, or the intersection of one with
the complement of the other. The complement of a mask is a negative integer, and whether the
result is a mask is asked again after every change. It always is, and it is the one that the
operations on 64 bits give (`Update.apply_eq_ok`).

What becomes of a bit is decided by the last change that mentions it. That is so for one change
(`testBit_after`), and by induction for a history of them (`testBit_afterAll`), for bits with a
name and without one alike. One mask has another exactly if it has all of its bits
(`has_iff`), and a mask is its bits (`ext_testBit`).
-/

set_option autoImplicit false

attribute [local instance (high)] instPowNat

namespace PeerWire

namespace ServiceFlags

/-! ## Bits -/

/-- Whether a bit of a mask is set. -/
def testBit (flags : ServiceFlags) (bit : Nat) : Bool :=
  flags.bits.toNat.testBit bit

/-- A mask is determined by its bits. -/
theorem ext_testBit {flags other : ServiceFlags}
    (same : ∀ bit, flags.testBit bit = other.testBit bit) : flags = other := by
  obtain ⟨bits⟩ := flags
  obtain ⟨others⟩ := other
  have equal : bits.toNat = others.toNat := Nat.eq_of_testBit_eq same
  rw [UInt64.toNat_inj.mp equal]

theorem testBit_add (flags mask : ServiceFlags) (bit : Nat) :
    (flags.add mask).testBit bit = (flags.testBit bit || mask.testBit bit) := by
  simp only [testBit, add, UInt64.toNat_or, Nat.testBit_or]

/-- Beyond the bits of a mask its complement has none either, and neither has what it is
intersected with. -/
theorem testBit_remove (flags mask : ServiceFlags) (bit : Nat) :
    (flags.remove mask).testBit bit = (flags.testBit bit && !mask.testBit bit) := by
  have complement : (~~~mask.bits).toNat = 2 ^ (64 : Nat) - (mask.bits.toNat + 1) := by
    rw [UInt64.toNat_not, Nat.sub_sub, Nat.add_comm 1]
  rw [testBit, remove, UInt64.toNat_and, complement, Nat.testBit_and,
    Nat.testBit_two_pow_sub_succ mask.bits.toNat_lt]
  by_cases inside : bit < 64
  · rw [decide_eq_true inside, Bool.true_and]
    rfl
  · have large : flags.bits.toNat < 2 ^ bit :=
      Nat.lt_of_lt_of_le flags.bits.toNat_lt (Nat.pow_le_pow_right (by decide) (by omega))
    rw [testBit, Nat.testBit_lt_two_pow large, Bool.false_and, Bool.false_and]

/-- One mask has another if every bit of the second is set in the first. -/
theorem has_iff {flags mask : ServiceFlags} :
    flags.has mask = true ↔ ∀ bit, mask.testBit bit = true → flags.testBit bit = true := by
  rw [has, decide_eq_true_eq, ← UInt64.toNat_inj, UInt64.toNat_and]
  constructor
  · intro same bit set
    have both := congrArg (Nat.testBit · bit) same
    rw [Nat.testBit_and] at both
    rw [testBit] at set ⊢
    rw [set, Bool.and_true] at both
    exact both
  · intro subset
    refine Nat.eq_of_testBit_eq fun bit => ?_
    rw [Nat.testBit_and]
    cases set : mask.bits.toNat.testBit bit with
    | false => rw [Bool.and_false]
    | true => rw [Bool.and_true]; exact subset bit set

/-! ## Changes -/

/-- A change of a mask. -/
inductive Update where
  | add (mask : ServiceFlags)
  | remove (mask : ServiceFlags)

namespace Update

/-- The bits that a change mentions. -/
def mask : Update → ServiceFlags
  | add mask => mask
  | remove mask => mask

/-- Whether the bits that a change mentions are set by it. -/
def sets : Update → Bool
  | add _ => true
  | remove _ => false

/-- The changed mask, by integers without a limit, if the result is a mask. -/
def apply (flags : ServiceFlags) : Update → Except Fault ServiceFlags
  | add mask => ofInt (Int.lor flags.bits.toNat mask.bits.toNat)
  | remove mask => ofInt (Int.land flags.bits.toNat (Int.lnot mask.bits.toNat))

/-- The changed mask, by 64 bits. -/
def after (flags : ServiceFlags) : Update → ServiceFlags
  | add mask => flags.add mask
  | remove mask => flags.remove mask

/-- The mask after a history of changes, the first of them first, if every result on the way is
a mask. -/
def applyAll (start : ServiceFlags) (updates : List Update) : Except Fault ServiceFlags :=
  updates.foldlM apply start

/-- The mask after a history of changes, by 64 bits. -/
def afterAll (start : ServiceFlags) (updates : List Update) : ServiceFlags :=
  updates.foldl after start

end Update

/-- The integer of a mask is the integer of the mask. -/
theorem ofInt_toNat (flags : ServiceFlags) : ofInt flags.bits.toNat = .ok flags := by
  have upper : flags.bits.toNat ≤ maxUnsigned64 := Nat.le_pred_of_lt flags.bits.toNat_lt
  have fits : isUnsigned64 flags.bits.toNat = true := by
    rw [isUnsigned64, Bool.and_eq_true, decide_eq_true_eq, decide_eq_true_eq]
    exact ⟨Int.natCast_nonneg _, Int.ofNat_le.mpr upper⟩
  rw [ofInt, if_pos fits, Int.toNat_natCast, UInt64.ofNat_toNat]

/-- The union of two masks is a mask. -/
theorem lor_eq (flags mask : ServiceFlags) :
    Int.lor flags.bits.toNat mask.bits.toNat = (flags.add mask).bits.toNat := by
  rw [add, UInt64.toNat_or]
  rfl

/-- So is what a mask has outside of another one, although the complement is negative: the bits
that it has beyond those of masks are cut off. -/
theorem land_lnot_eq (flags mask : ServiceFlags) :
    Int.land flags.bits.toNat (Int.lnot mask.bits.toNat) = (flags.remove mask).bits.toNat := by
  change ((Nat.ldiff flags.bits.toNat mask.bits.toNat : Nat) : Int) = _
  refine congrArg Int.ofNat (Nat.eq_of_testBit_eq fun bit => ?_)
  rw [Nat.testBit_ldiff]
  exact (testBit_remove flags mask bit).symm

namespace Update

/-- No change of a mask by a mask fails. -/
theorem apply_eq_ok (flags : ServiceFlags) (update : Update) :
    apply flags update = .ok (after flags update) := by
  cases update with
  | add mask => rw [apply, lor_eq, ofInt_toNat, after]
  | remove mask => rw [apply, land_lnot_eq, ofInt_toNat, after]

theorem applyAll_eq_ok (start : ServiceFlags) (updates : List Update) :
    applyAll start updates = .ok (afterAll start updates) := by
  induction updates generalizing start with
  | nil => rfl
  | cons update rest ih =>
    rw [applyAll, List.foldlM_cons, apply_eq_ok]
    exact ih (after start update)

/-! ## Histories -/

/-- A change sets or clears the bits that it mentions, and keeps all others. -/
theorem testBit_after (flags : ServiceFlags) (update : Update) (bit : Nat) :
    (after flags update).testBit bit
      = if update.mask.testBit bit = true then update.sets else flags.testBit bit := by
  cases update with
  | add mask =>
    rw [after, testBit_add, Update.mask, sets]
    cases mask.testBit bit with
    | false => exact Bool.or_false _
    | true => exact Bool.or_true _
  | remove mask =>
    rw [after, testBit_remove, Update.mask, sets]
    cases mask.testBit bit with
    | false => exact Bool.and_true _
    | true => exact Bool.and_false _

/-- The last of the changes that mention a bit. -/
def lastMention? (bit : Nat) (updates : List Update) : Option Update :=
  (updates.filter fun update => update.mask.testBit bit).getLast?

/-- A change in front of others is the last to mention a bit if it does and they do not. -/
theorem lastMention?_cons (bit : Nat) (update : Update) (rest : List Update) :
    lastMention? bit (update :: rest)
      = (lastMention? bit rest).or
          (if update.mask.testBit bit = true then some update else .none) := by
  rw [lastMention?, lastMention?, List.filter_cons]
  split
  · rw [List.getLast?_cons]
    cases (rest.filter fun update => update.mask.testBit bit).getLast? <;> rfl
  · rw [Option.or_none]

/-- After a history a bit is as the last change that mentions it has left it, or as it was. -/
theorem testBit_afterAll (start : ServiceFlags) (updates : List Update) (bit : Nat) :
    (afterAll start updates).testBit bit
      = match lastMention? bit updates with
        | some update => update.sets
        | .none => start.testBit bit := by
  induction updates generalizing start with
  | nil => rfl
  | cons update rest ih =>
    have step : afterAll start (update :: rest) = afterAll (after start update) rest := rfl
    rw [step, ih, lastMention?_cons, testBit_after]
    cases lastMention? bit rest with
    | some later => rfl
    | none =>
      rw [Option.none_or]
      by_cases mentioned : update.mask.testBit bit = true
      · rw [if_pos mentioned, if_pos mentioned]
      · rw [if_neg mentioned, if_neg mentioned]

end Update

/-! ## Having services -/

theorem has_add (flags mask : ServiceFlags) : (flags.add mask).has mask = true := by
  refine has_iff.mpr fun bit set => ?_
  rw [testBit_add, set, Bool.or_true]

theorem has_remove_iff {flags mask other : ServiceFlags} :
    (flags.remove mask).has other = true
      ↔ flags.has other = true
          ∧ ∀ bit, ¬ (mask.testBit bit = true ∧ other.testBit bit = true) := by
  simp only [has_iff, testBit_remove, Bool.and_eq_true, Bool.not_eq_true', ← forall_and]
  refine forall_congr' fun bit => ?_
  cases mask.testBit bit <;> cases other.testBit bit <;> simp

/-- No change in a history of masks added and removed fails, and each bit of the mask in the end
is set exactly if the last change that mentions it added it, or if none mentions it and it was set
at the start. The mask in the end has another one exactly if it has all of its bits: whatever is
added to it is had, and after a removal exactly those masks are had that were had before and share
no bit with what was removed. -/
theorem bits_after_updates (start : ServiceFlags) (updates : List Update) :
    ∃ final, Update.applyAll start updates = .ok final
      ∧ final = Update.afterAll start updates
      ∧ (∀ bit, final.testBit bit = true
          ↔ (∃ mask, Update.lastMention? bit updates = some (.add mask))
            ∨ (Update.lastMention? bit updates = .none ∧ start.testBit bit = true))
      ∧ ∀ mask : ServiceFlags,
          (final.has mask = true ↔ ∀ bit, mask.testBit bit = true → final.testBit bit = true)
            ∧ (final.add mask).has mask = true
            ∧ ∀ other, (final.remove mask).has other = true
              ↔ final.has other = true
                ∧ ∀ bit, ¬ (mask.testBit bit = true ∧ other.testBit bit = true) := by
  refine ⟨Update.afterAll start updates, Update.applyAll_eq_ok start updates, rfl, ?_, ?_⟩
  · intro bit
    rw [Update.testBit_afterAll]
    cases Update.lastMention? bit updates with
    | none => simp
    | some update => cases update <;> simp [Update.sets]
  · intro mask
    exact ⟨has_iff, has_add _ mask, fun _ => has_remove_iff⟩

end ServiceFlags

end PeerWire
