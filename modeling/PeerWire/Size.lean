import PeerWire.Number

/-!
# Sizes

What one element of a sequence is charged when the sequence is checked against the
allocation ceiling. A size is a number, which limits sums of sizes in two ways: one beyond
`2 ^ 53` is rounded, and one that outgrows every number is infinite.
-/

set_option autoImplicit false

-- Powers are those of the core library, whatever else is imported.
attribute [local instance (high)] instPowNat

namespace PeerWire

/-- A number of bytes, or what a sum beyond the largest number comes to. -/
inductive Size where
  | finite (bytes : Nat)
  | infinite
  deriving DecidableEq

namespace Size

instance : Coe Nat Size := ⟨.finite⟩

/-- The size nearest to a number of bytes. The exponents of numbers end at 1023. -/
@[irreducible] def nearest (bytes : Nat) : Size :=
  let rounded := Number.roundNat bytes
  if rounded.log2 ≤ 1023 then .finite rounded else .infinite

/-- Two sizes together. -/
def add : Size → Size → Size
  | .finite first, .finite second => nearest (first + second)
  | _, _ => .infinite

instance : Add Size := ⟨add⟩

/-- The size is a number of bytes. -/
def IsFinite : Size → Prop
  | .finite _ => True
  | .infinite => False

instance (size : Size) : Decidable size.IsFinite :=
  match size with
  | .finite _ => .isTrue trivial
  | .infinite => .isFalse id

/-- The number of bytes that a size is; an infinite size is none and counts as zero. -/
def toNat : Size → Nat
  | .finite bytes => bytes
  | .infinite => 0

theorem IsFinite.eq_toNat {size : Size} (finite : size.IsFinite) : size = size.toNat := by
  cases size with
  | finite bytes => rfl
  | infinite => exact finite.elim

/-- Numbers of bytes up to `2 ^ 53` are sizes as they are. -/
theorem nearest_of_le {bytes : Nat} (small : bytes ≤ 2 ^ (53 : Nat)) : nearest bytes = bytes := by
  have short : bytes.log2 ≤ 1023 := by
    by_cases zero : bytes = 0
    · subst zero
      decide
    · have := (Nat.log2_lt zero).mpr (show bytes < 2 ^ (54 : Nat) by omega)
      omega
  unfold nearest
  simp only [Number.roundNat_of_le small, if_pos short]

/-- The first power of two that no number reaches is `2 ^ 1024`. -/
theorem nearest_two_pow (exponent : Nat) :
    nearest (2 ^ exponent) = if exponent ≤ 1023 then .finite (2 ^ exponent) else .infinite := by
  unfold nearest
  simp only [Number.roundNat_two_pow, Nat.log2_two_pow]

@[simp] theorem finite_add_finite (first second : Nat) :
    finite first + finite second = nearest (first + second) := rfl

@[simp] theorem infinite_add (size : Size) : infinite + size = infinite := rfl

@[simp] theorem add_infinite (size : Size) : size + infinite = infinite := by
  cases size with
  | finite bytes => rfl
  | infinite => rfl

end Size

end PeerWire
