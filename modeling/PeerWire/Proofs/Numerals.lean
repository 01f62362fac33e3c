import PeerWire.Number.Numeral
import PeerWire.Proofs.HexForms

/-!
# Numerals, and texts taken apart at a separator

A numeral of a number is the one text of digits below the base that makes the number and has no
zero in front (`Text.IsNumeral`). The numeral that is written is one (`Text.isNumeral_ofNatBase`),
so a number can be read off it.

Texts joined by a separator can be taken apart again if the separator is in none of them
(`Text.splitOn_join`), as it is not in numerals if it is no digit. A text taken apart and joined
again is the text (`Text.join_splitOn`).
-/

set_option autoImplicit false

attribute [local instance (high)] instPowNat

namespace PeerWire

namespace Text

/-! ## Separators -/

/-- Taking a text apart is taking its units apart. -/
theorem splitOn_eq (separator : UInt16) (text : Text) :
    text.splitOn separator = (text.units.splitOn separator).map Text.mk := by
  obtain ⟨units⟩ := text
  rw [splitOn]
  congr 1
  induction units with
  | nil => exact (List.splitOn_nil separator).symm
  | cons unit rest ih =>
    change _ = List.splitOn separator (unit :: rest)
    rw [List.foldr_cons, ih, List.splitOn_cons_eq_if_modifyHead]
    by_cases same : unit = separator
    · rw [if_pos same, if_pos (beq_iff_eq.mpr same)]
    · rw [if_neg same, if_neg (mt beq_iff_eq.mp same)]
      cases pieces : List.splitOn separator rest with
      | nil => exact absurd pieces (List.splitOn_ne_nil _ rest)
      | cons piece more => rfl

/-- Texts that do not contain a separator are what their join is taken apart into. -/
theorem splitOn_join {separator : UInt16} {parts : List Text}
    (without : ∀ part ∈ parts, separator ∉ part.units) (some : parts ≠ []) :
    splitOn separator (join ⟨[separator]⟩ parts) = parts := by
  have clean : ∀ piece ∈ parts.map units, separator ∉ piece := List.forall_mem_map.mpr without
  have back := List.splitOn_intercalate separator clean (mt List.map_eq_nil_iff.mp some)
  rw [splitOn_eq, join, back, List.map_map]
  exact List.map_id parts

/-- What a text is taken apart into joins to the text. -/
theorem join_splitOn (separator : UInt16) (text : Text) :
    join ⟨[separator]⟩ (splitOn separator text) = text := by
  have same : ((text.units.splitOn separator).map Text.mk).map units
      = text.units.splitOn separator := by
    rw [List.map_map]
    exact List.map_id _
  rw [splitOn_eq, join, same, List.intercalate_splitOn]

/-- A text without the separator is not taken apart. -/
theorem splitOn_of_not_mem {separator : UInt16} {text : Text} (without : separator ∉ text.units) :
    splitOn separator text = [text] := by
  rw [splitOn_eq, List.splitOn_eq_singleton without]
  rfl

/-- A unit of joined texts is in one of them, or in the separator. -/
theorem mem_join {separator : Text} {unit : UInt16} {parts : List Text}
    (inside : unit ∈ (join separator parts).units) :
    unit ∈ separator.units ∨ ∃ part ∈ parts, unit ∈ part.units := by
  induction parts with
  | nil => cases inside
  | cons part rest ih =>
    rw [join, List.map_cons] at inside
    cases rest with
    | nil =>
      rw [List.map_nil, List.intercalate_singleton] at inside
      exact .inr ⟨part, .head _, inside⟩
    | cons next more =>
      rw [List.map_cons, List.intercalate_cons_cons, List.append_assoc, List.mem_append,
        List.mem_append] at inside
      rcases inside with front | between | behind
      · exact .inr ⟨part, .head _, front⟩
      · exact .inl between
      · refine (ih behind).imp_right ?_
        rintro ⟨other, among, within⟩
        exact ⟨other, .tail _ among, within⟩

/-! ## Numerals -/

/-- The number that the digits of a text make. -/
def valueIn (base : Nat) (text : Text) : Nat :=
  (text.units.filterMap hexValue?).foldl (fun value digit => base * value + digit) 0

/-- A text of at least one digit below the base, which make the value; the first of them is no
zero, unless it is the only one. -/
structure IsNumeral (base : Nat) (text : Text) (value : Nat) : Prop where
  nonempty : text.units ≠ []
  digits : ∀ unit ∈ text.units, ∃ digit < base, unit = hexDigit digit
  makes : valueIn base text = value
  shortest : text.units.head? = some (hexDigit 0) → text.units.length = 1

/-- The units of a numeral are hexadecimal digits, and none is in upper case. -/
theorem IsNumeral.isLowerHexDigit {base value : Nat} {text : Text}
    (numeral : IsNumeral base text value) (known : base ≤ 16) :
    ∀ unit ∈ text.units, IsLowerHexDigit unit := by
  intro unit inside
  obtain ⟨digit, below, rfl⟩ := numeral.digits unit inside
  exact isLowerHexDigit_hexDigit (by omega)

/-- A digit as a character is the digit as a unit. -/
theorem unitsOfChar_digitChar {digit : Nat} (small : digit < 16) :
    unitsOfChar (Nat.digitChar digit) = [hexDigit digit] := by
  have all : ∀ digit < 16, unitsOfChar (Nat.digitChar digit) = [hexDigit digit] := by decide
  exact all digit small

section Base

variable {base : Nat} (some : 1 < base) (known : base ≤ 16)
include some known

/-- The last digit is the remainder, and in front of it stands the numeral of the quotient, if
there is one. -/
theorem units_ofNatBase (value : Nat) :
    (ofNatBase base value).units
      = if value < base then [hexDigit value]
        else (ofNatBase base (value / base)).units ++ [hexDigit (value % base)] := by
  rw [ofNatBase, ofChars, Nat.toDigits_eq_if some]
  split
  · next last => rw [List.flatMap_singleton, unitsOfChar_digitChar (by omega)]
  · next more =>
    have below : value % base < 16 := by
      have := Nat.mod_lt value (by omega : base > 0)
      omega
    rw [List.flatMap_append, List.flatMap_singleton, unitsOfChar_digitChar below]
    rfl

/-- A digit behind a text counts once, and the text as often as the base says. -/
theorem valueIn_append {units : List UInt16} {digit : Nat} (below : digit < base) :
    valueIn base ⟨units ++ [hexDigit digit]⟩ = base * valueIn base ⟨units⟩ + digit := by
  have read := hexValue?_hexDigit (by omega : digit < 16)
  rw [valueIn, List.filterMap_append, List.filterMap_cons_some read, List.filterMap_nil,
    List.foldl_append]
  rfl

/-- What is written is a numeral. -/
theorem isNumeral_ofNatBase (value : Nat) : IsNumeral base (ofNatBase base value) value := by
  -- Along the quotients by the base.
  induction value using Nat.strongRecOn with
  | ind value ih =>
    have units := units_ofNatBase some known value
    by_cases last : value < base
    · rw [if_pos last] at units
      have text : ofNatBase base value = ⟨[hexDigit value]⟩ := congrArg Text.mk units
      rw [text]
      refine ⟨List.cons_ne_nil _ _, ?_, ?_, fun _ => rfl⟩
      · intro unit inside
        exact ⟨value, last, List.mem_singleton.mp inside⟩
      · have digit : valueIn base ⟨[] ++ [hexDigit value]⟩ = 0 + value :=
          valueIn_append some known last
        exact digit.trans (Nat.zero_add value)
    · rw [if_neg last] at units
      have text : ofNatBase base value = ⟨_⟩ := congrArg Text.mk units
      have below : value % base < base := Nat.mod_lt _ (by omega)
      have positive : 0 < value / base := Nat.div_pos (by omega) (by omega)
      obtain ⟨nonempty, digits, makes, shortest⟩ :=
        ih (value / base) (Nat.div_lt_self (by omega) some)
      rw [text]
      refine ⟨List.append_ne_nil_of_left_ne_nil nonempty _, ?_, ?_, ?_⟩
      · intro unit inside
        rcases List.mem_append.mp inside with front | back
        · exact digits unit front
        · exact ⟨_, below, List.mem_singleton.mp back⟩
      · rw [valueIn_append some known below]
        change base * valueIn base (ofNatBase base (value / base)) + _ = _
        rw [makes, Nat.div_add_mod]
      · -- A zero in front would be all of the quotient's numeral, but the quotient is not zero.
        obtain ⟨first, more, front⟩ := List.exists_cons_of_ne_nil nonempty
        rw [front] at shortest
        dsimp only
        rw [front, List.cons_append, List.head?_cons]
        intro zero
        have alone := List.eq_nil_of_length_eq_zero (Nat.succ.inj (shortest zero))
        have text : ofNatBase base (value / base) = ⟨[hexDigit 0]⟩ := by
          rw [← Option.some.inj zero, ← alone, ← front]
        rw [text] at makes
        exact absurd makes (Nat.ne_of_lt positive)

/-- A number below a power of the base has at most as many digits as the power says. -/
theorem length_ofNatBase_le {count value : Nat} (below : value < base ^ (count + 1)) :
    (ofNatBase base value).units.length ≤ count + 1 := by
  induction count generalizing value with
  | zero =>
    rw [Nat.zero_add, Nat.pow_one] at below
    rw [units_ofNatBase some known, if_pos below]
    exact Nat.le_refl 1
  | succ count ih =>
    rw [units_ofNatBase some known]
    split
    · exact Nat.succ_le_succ (Nat.zero_le _)
    · have quotient : value / base < base ^ (count + 1) := by
        rw [Nat.div_lt_iff_lt_mul (by omega)]
        exact below
      rw [List.length_append, List.length_singleton]
      exact Nat.succ_le_succ (ih quotient)

end Base

end Text

end PeerWire
