import Mathlib.Logic.ExistsUnique
import PeerWire.Proofs.Parsing

/-!
# Hexadecimal forms of byte strings

A text is a hexadecimal form exactly if what stands behind its marker is an even number of
hexadecimal digits (`IsBehindMarker`, `IsHexDigit`). What stands behind the marker is settled
before anything is looked at: the marker alone is the form of no bytes, and a second marker behind
the first is no digit.

Reading and writing are inverse to each other up to the case of the digits. Written digits are
lower case, and reading a text is reading it in lower case (`Bytes.ofHex_lowercase`), so a form in
any mixture of cases, behind a marker or without one, stands for the same bytes, and these are
written as the form in lower case (`Bytes.toHex_of_ofHex`, `Bytes.ofHex_toHex`).
-/

set_option autoImplicit false

namespace PeerWire

namespace Text

/-! ## Digits -/

/-- A hexadecimal digit that is not in upper case. -/
def IsLowerHexDigit (unit : UInt16) : Prop :=
  (0x30 ≤ unit ∧ unit ≤ 0x39) ∨ (0x61 ≤ unit ∧ unit ≤ 0x66)

/-- A hexadecimal digit in either case. -/
def IsHexDigit (unit : UInt16) : Prop :=
  IsLowerHexDigit unit ∨ (0x41 ≤ unit ∧ unit ≤ 0x46)

instance (unit : UInt16) : Decidable (IsLowerHexDigit unit) :=
  inferInstanceAs (Decidable ((0x30 ≤ unit ∧ unit ≤ 0x39) ∨ (0x61 ≤ unit ∧ unit ≤ 0x66)))

instance (unit : UInt16) : Decidable (IsHexDigit unit) :=
  inferInstanceAs (Decidable (IsLowerHexDigit unit ∨ (0x41 ≤ unit ∧ unit ≤ 0x46)))

/-- A unit with a Latin capital letter made small. -/
def lowerUnit (unit : UInt16) : UInt16 :=
  if 0x41 ≤ unit ∧ unit ≤ 0x5a then unit + 0x20 else unit

/-- A text with its Latin capital letters made small. -/
def lowercase (text : Text) : Text :=
  ⟨text.units.map lowerUnit⟩

theorem isSome_hexValue?_iff {unit : UInt16} :
    (hexValue? unit).isSome = true ↔ IsHexDigit unit := by
  rw [IsHexDigit, IsLowerHexDigit, hexValue?]
  split
  · next decimal => exact iff_of_true rfl (.inl (.inl decimal))
  · next notDecimal =>
    split
    · next small => exact iff_of_true rfl (.inl (.inr small))
    · next notSmall =>
      split
      · next capital => exact iff_of_true rfl (.inr capital)
      · next notCapital =>
        refine iff_of_false nofun ?_
        rintro ((decimal | small) | capital)
        · exact notDecimal decimal
        · exact notSmall small
        · exact notCapital capital

theorem hexValue?_hexDigit {value : Nat} (small : value < 16) :
    hexValue? (hexDigit value) = some value := by
  have all : ∀ value < 16, hexValue? (hexDigit value) = some value := by decide
  exact all value small

theorem isLowerHexDigit_hexDigit {value : Nat} (small : value < 16) :
    IsLowerHexDigit (hexDigit value) := by
  have all : ∀ value < 16, IsLowerHexDigit (hexDigit value) := by decide
  exact all value small

/-- The number of a unit in lower case. -/
theorem toNat_lowerUnit (unit : UInt16) :
    (lowerUnit unit).toNat
      = if 0x41 ≤ unit.toNat ∧ unit.toNat ≤ 0x5a then unit.toNat + 0x20 else unit.toNat := by
  have capital : (0x41 ≤ unit ∧ unit ≤ 0x5a) ↔ 0x41 ≤ unit.toNat ∧ unit.toNat ≤ 0x5a := by
    rw [UInt16.le_iff_toNat_le, UInt16.le_iff_toNat_le]
    rfl
  rw [lowerUnit]
  split
  · next isCapital =>
    rw [if_pos (capital.mp isCapital), UInt16.toNat_add]
    have := (capital.mp isCapital).2
    exact Nat.mod_eq_of_lt (by change unit.toNat + 32 < 65536; omega)
  · next notCapital => rw [if_neg (mt capital.mpr notCapital)]

/-- The value of a digit by the number of its unit. -/
theorem hexValue?_eq (unit : UInt16) :
    hexValue? unit
      = if 0x30 ≤ unit.toNat ∧ unit.toNat ≤ 0x39 then some (unit.toNat - 0x30)
        else if 0x61 ≤ unit.toNat ∧ unit.toNat ≤ 0x66 then some (unit.toNat - 0x57)
        else if 0x41 ≤ unit.toNat ∧ unit.toNat ≤ 0x46 then some (unit.toNat - 0x37)
        else none := by
  simp only [hexValue?, UInt16.le_iff_toNat_le]
  rfl

/-- A digit has the same value in either case, and what is no digit is none in lower case. -/
theorem hexValue?_lowerUnit (unit : UInt16) : hexValue? (lowerUnit unit) = hexValue? unit := by
  rw [hexValue?_eq, hexValue?_eq, toNat_lowerUnit]
  by_cases capital : 0x41 ≤ unit.toNat ∧ unit.toNat ≤ 0x5a
  · rw [if_pos capital, if_neg (by omega), if_neg (by omega : ¬ (0x30 ≤ unit.toNat ∧ _))]
    by_cases digit : unit.toNat ≤ 0x46
    · rw [if_pos (by omega), if_neg (by omega), if_pos (by omega)]
      congr 1
    · rw [if_neg (by omega), if_neg (by omega), if_neg (by omega), if_neg (by omega)]
  · rw [if_neg capital]

/-- The digit of a value that was read is the unit in lower case. -/
theorem hexDigit_of_hexValue? {unit : UInt16} {value : Nat} (read : hexValue? unit = some value) :
    value < 16 ∧ hexDigit value = lowerUnit unit := by
  rw [hexValue?_eq] at read
  have number : value < 16
      ∧ (if value < 10 then 0x30 + value else 0x57 + value) = (lowerUnit unit).toNat := by
    rw [toNat_lowerUnit]
    grind
  refine ⟨number.1, UInt16.toNat_inj.mp ?_⟩
  rw [hexDigit, UInt16.toNat_ofNat', number.2]
  exact Nat.mod_eq_of_lt (lowerUnit unit).toNat_lt

/-! ## Markers -/

/-- What stands behind the marker of a text: a text that begins with `0x` or `0X` goes on with it,
and any other text is all of it. -/
def IsBehindMarker (text rest : Text) : Prop :=
  text = "0x" ++ rest ∨ text = "0X" ++ rest
    ∨ (text = rest ∧ ∀ behind : Text, text ≠ "0x" ++ behind ∧ text ≠ "0X" ++ behind)

theorem units_small_marker (rest : Text) :
    (ofString "0x" ++ rest).units = 0x30 :: 0x78 :: rest.units := rfl

theorem units_capital_marker (rest : Text) :
    (ofString "0X" ++ rest).units = 0x30 :: 0x58 :: rest.units := rfl

theorem dropHexMarker_small_marker (rest : Text) :
    (ofString "0x" ++ rest).dropHexMarker = rest := by
  rw [dropHexMarker, units_small_marker]
  rfl

theorem dropHexMarker_capital_marker (rest : Text) :
    (ofString "0X" ++ rest).dropHexMarker = rest := by
  rw [dropHexMarker, units_capital_marker]
  rfl

/-- What stands behind the marker is what is left when the marker is dropped. -/
theorem isBehindMarker_iff {text rest : Text} :
    IsBehindMarker text rest ↔ text.dropHexMarker = rest := by
  constructor
  · rintro (rfl | rfl | ⟨rfl, unmarked⟩)
    · exact dropHexMarker_small_marker rest
    · exact dropHexMarker_capital_marker rest
    · rw [dropHexMarker]
      split
      · next behind units => exact absurd (congrArg Text.mk units) (unmarked ⟨behind⟩).1
      · next behind units => exact absurd (congrArg Text.mk units) (unmarked ⟨behind⟩).2
      · rfl
  · rintro rfl
    rw [dropHexMarker]
    split
    · next behind units => exact .inl (congrArg Text.mk units)
    · next behind units => exact .inr (.inl (congrArg Text.mk units))
    · next notSmall notCapital =>
      refine .inr (.inr ⟨rfl, fun behind => ⟨?_, ?_⟩⟩)
      · exact fun marked => notSmall behind.units (congrArg units marked)
      · exact fun marked => notCapital behind.units (congrArg units marked)

/-- Only the two forms of a marker are a marker in lower case. -/
theorem isMarker_of_lowerUnit {zero letter : UInt16} (isZero : lowerUnit zero = 0x30)
    (isLetter : lowerUnit letter = 0x78) : zero = 0x30 ∧ (letter = 0x78 ∨ letter = 0x58) := by
  have first := congrArg UInt16.toNat isZero
  have second := congrArg UInt16.toNat isLetter
  rw [toNat_lowerUnit] at first second
  simp only [← UInt16.toNat_inj]
  grind

theorem lowerUnit_ne_capital (letter : UInt16) : lowerUnit letter ≠ 0x58 := by
  intro same
  have number := congrArg UInt16.toNat same
  rw [toNat_lowerUnit] at number
  grind

/-- Lower case and the dropping of the marker do not disturb each other. -/
theorem dropHexMarker_lowercase (text : Text) :
    text.lowercase.dropHexMarker = text.dropHexMarker.lowercase := by
  generalize dropped : text.dropHexMarker = rest
  rcases isBehindMarker_iff.mpr dropped with rfl | rfl | ⟨rfl, unmarked⟩
  · exact dropHexMarker_small_marker rest.lowercase
  · exact dropHexMarker_small_marker rest.lowercase
  · -- A marker in lower case would be one in the text.
    refine isBehindMarker_iff.mp (.inr (.inr ⟨rfl, fun behind => ⟨?_, ?_⟩⟩)) <;>
      intro marked <;> replace marked := congrArg units marked <;>
      obtain ⟨zero, more, units, isZero, rest⟩ := List.map_eq_cons_iff.mp marked <;>
      obtain ⟨letter, last, rfl, isLetter, -⟩ := List.map_eq_cons_iff.mp rest
    · obtain ⟨rfl, rfl | rfl⟩ := isMarker_of_lowerUnit isZero isLetter
      · exact (unmarked ⟨last⟩).1 (congrArg Text.mk units)
      · exact (unmarked ⟨last⟩).2 (congrArg Text.mk units)
    · exact lowerUnit_ne_capital letter isLetter

/-! ## Digits of a form -/

theorem isHex_iff {text : Text} :
    text.isHex = true ↔ text.length % 2 = 0 ∧ ∀ unit ∈ text.units, IsHexDigit unit := by
  rw [isHex, Bool.and_eq_true, decide_eq_true_eq, List.all_eq_true]
  simp only [isSome_hexValue?_iff]

theorem isHex_lowercase (text : Text) : text.lowercase.isHex = text.isHex := by
  rw [isHex, isHex, length, lowercase, List.length_map, List.all_map]
  refine congrArg _ (List.all_congr rfl fun unit => ?_)
  exact congrArg Option.isSome (hexValue?_lowerUnit unit)

theorem filterMap_hexValue?_lowercase (text : Text) :
    text.lowercase.units.filterMap hexValue? = text.units.filterMap hexValue? := by
  rw [lowercase, List.filterMap_map]
  exact congrArg (List.filterMap · text.units) (funext hexValue?_lowerUnit)

/-- Of digits, nothing is lost when they are read: they can be written again, in lower case. -/
theorem map_hexDigit_filterMap {units : List UInt16} (digits : ∀ unit ∈ units, IsHexDigit unit) :
    (units.filterMap hexValue?).map hexDigit = units.map lowerUnit := by
  induction units with
  | nil => rfl
  | cons unit rest ih =>
    obtain ⟨value, read⟩ :=
      Option.isSome_iff_exists.mp (isSome_hexValue?_iff.mpr (digits unit List.mem_cons_self))
    rw [List.filterMap_cons_some read, List.map_cons, List.map_cons,
      (hexDigit_of_hexValue? read).2, ih fun other inside => digits other (.tail unit inside)]

end Text

namespace Bytes

open Text

/-! ## Reading and writing -/

/-- The halves of bytes, high half first. -/
def halves (bytes : Bytes) : List Nat :=
  bytes.flatMap fun byte => [byte.toNat / 16, byte.toNat % 16]

/-- Both halves of a byte are values of digits. -/
theorem halves_lt (byte : UInt8) : byte.toNat / 16 < 16 ∧ byte.toNat % 16 < 16 := by
  have := byte.toNat_lt
  omega

theorem filterMap_hexValue?_toHex (bytes : Bytes) :
    bytes.toHex.units.filterMap hexValue? = bytes.halves := by
  rw [toHex, halves, List.filterMap_flatMap]
  refine congrArg (List.flatMap · bytes) (funext fun byte => ?_)
  obtain ⟨high, low⟩ := halves_lt byte
  rw [hexPair, List.filterMap_cons_some (hexValue?_hexDigit high),
    List.filterMap_cons_some (hexValue?_hexDigit low), List.filterMap_nil]

theorem joinDigits_halves (done bytes : Bytes) :
    joinDigits done (halves bytes) = done.reverse ++ bytes := by
  induction bytes generalizing done with
  | nil => exact (List.append_nil done.reverse).symm
  | cons byte rest ih =>
    have join : 16 * (byte.toNat / 16) + byte.toNat % 16 = byte.toNat := Nat.div_add_mod _ _
    have step : joinDigits done (halves (byte :: rest))
        = joinDigits (UInt8.ofNat (16 * (byte.toNat / 16) + byte.toNat % 16) :: done)
            (halves rest) := rfl
    rw [step, join, UInt8.ofNat_toNat, ih, List.reverse_cons, List.append_assoc,
      List.singleton_append]

/-- Two digits joined are written as the two digits. -/
theorem hexPair_join {high low : Nat} (highBelow : high < 16) (lowBelow : low < 16) :
    hexPair (UInt8.ofNat (16 * high + low)) = [hexDigit high, hexDigit low] := by
  have number : (UInt8.ofNat (16 * high + low)).toNat = 16 * high + low := by
    rw [UInt8.toNat_ofNat']
    exact Nat.mod_eq_of_lt (by omega)
  have first : (16 * high + low) / 16 = high := by omega
  have second : (16 * high + low) % 16 = low := by omega
  rw [hexPair, number, first, second]

/-- Digits joined by pairs are written as the digits. -/
theorem flatMap_hexPair_joinDigits : ∀ (done : Bytes) (digits : List Nat),
    (∀ digit ∈ digits, digit < 16) → digits.length % 2 = 0 →
      (joinDigits done digits).flatMap hexPair
        = done.reverse.flatMap hexPair ++ digits.map hexDigit
  | done, [], _, _ => (List.append_nil _).symm
  | _, [_], _, even => absurd even (by rw [List.length_singleton]; decide)
  | done, high :: low :: rest, below, even => by
    have highBelow := below high List.mem_cons_self
    have lowBelow := below low (.tail high List.mem_cons_self)
    have restEven : rest.length % 2 = 0 := by
      rw [List.length_cons, List.length_cons] at even
      omega
    rw [joinDigits, flatMap_hexPair_joinDigits _ rest
        (fun digit inside => below digit (.tail high (.tail low inside))) restEven,
      List.reverse_cons, List.flatMap_append, List.flatMap_singleton,
      hexPair_join highBelow lowBelow, List.append_assoc]
    rfl

/-- Every written digit is a digit in lower case. -/
theorem isLowerHexDigit_of_mem_toHex {bytes : Bytes} :
    ∀ unit ∈ bytes.toHex.units, IsLowerHexDigit unit := by
  intro unit inside
  obtain ⟨byte, -, among⟩ := List.mem_flatMap.mp inside
  obtain ⟨high, low⟩ := halves_lt byte
  rw [hexPair, List.mem_cons, List.mem_singleton] at among
  rcases among with rfl | rfl
  · exact isLowerHexDigit_hexDigit high
  · exact isLowerHexDigit_hexDigit low

/-- Each byte is written by two digits. -/
theorem length_toHex (bytes : Bytes) : bytes.toHex.length = 2 * bytes.length := by
  induction bytes with
  | nil => rfl
  | cons byte rest ih =>
    have step : (toHex (byte :: rest)).length = (toHex rest).length + 2 := rfl
    rw [step, ih, List.length_cons]
    omega

/-- What was written is hexadecimal. -/
theorem isHex_toHex (bytes : Bytes) : bytes.toHex.isHex = true := by
  refine isHex_iff.mpr ⟨?_, fun unit inside => .inl (isLowerHexDigit_of_mem_toHex unit inside)⟩
  rw [length_toHex]
  exact Nat.mul_mod_right 2 _

/-- No digit is the second unit of a marker. -/
theorem not_isHexDigit_marker : ¬ IsHexDigit 0x78 ∧ ¬ IsHexDigit 0x58 := by decide

/-- Digits have no marker in front. -/
theorem dropHexMarker_of_isHex {text : Text} (isHex : text.isHex = true) :
    text.dropHexMarker = text := by
  have digits := (isHex_iff.mp isHex).2
  refine isBehindMarker_iff.mp (.inr (.inr ⟨rfl, fun behind => ⟨?_, ?_⟩⟩)) <;> rintro rfl
  · exact not_isHexDigit_marker.1 (digits 0x78 (.tail _ (.head _)))
  · exact not_isHexDigit_marker.2 (digits 0x58 (.tail _ (.head _)))

/-- Reading judges what stands behind the marker. -/
theorem ofHex_eq (text : Text) :
    ofHex text
      = if text.dropHexMarker.isHex = true then
          .ok (joinDigits [] (text.dropHexMarker.units.filterMap hexValue?))
        else if text.dropHexMarker.length % 2 = 0 then .error .badCharacter
        else .error .oddLength := rfl

/-- Reading a text is reading it in lower case. -/
theorem ofHex_lowercase (text : Text) : ofHex text.lowercase = ofHex text := by
  have size : text.dropHexMarker.lowercase.length = text.dropHexMarker.length := List.length_map _
  rw [ofHex_eq, ofHex_eq, dropHexMarker_lowercase, isHex_lowercase,
    filterMap_hexValue?_lowercase, size]

/-- What is written is read back, with or without a marker in front. -/
theorem ofHex_of_dropHexMarker {text : Text} {bytes : Bytes}
    (behind : text.dropHexMarker = bytes.toHex) : ofHex text = .ok bytes := by
  rw [ofHex_eq, behind, if_pos (isHex_toHex bytes), filterMap_hexValue?_toHex, joinDigits_halves]
  rfl

theorem ofHex_toHex (bytes : Bytes) : ofHex bytes.toHex = .ok bytes :=
  ofHex_of_dropHexMarker (dropHexMarker_of_isHex (isHex_toHex bytes))

theorem ofHex_marked_toHex (bytes : Bytes) : ofHex ("0x" ++ bytes.toHex) = .ok bytes :=
  ofHex_of_dropHexMarker (dropHexMarker_small_marker _)

/-- What was read is written as what stands behind the marker, in lower case. -/
theorem toHex_of_ofHex {text : Text} {bytes : Bytes} (read : ofHex text = .ok bytes) :
    bytes.toHex = text.dropHexMarker.lowercase := by
  rw [ofHex_eq] at read
  split at read
  · next isHex =>
    cases read
    obtain ⟨even, digits⟩ := isHex_iff.mp isHex
    have written := map_hexDigit_filterMap digits
    have count : (text.dropHexMarker.units.filterMap hexValue?).length % 2 = 0 := by
      rw [← List.length_map hexDigit, written, List.length_map]
      exact even
    have below : ∀ digit ∈ text.dropHexMarker.units.filterMap hexValue?, digit < 16 := by
      intro digit inside
      obtain ⟨unit, -, value⟩ := List.mem_filterMap.mp inside
      exact (hexDigit_of_hexValue? value).1
    rw [toHex, flatMap_hexPair_joinDigits [] _ below count, written]
    rfl
  · split at read <;> cases read

section Verdicts

variable {text : Text}

/-- A text is read exactly if what stands behind its marker is hexadecimal. -/
theorem exists_ofHex_iff :
    (∃ bytes, ofHex text = .ok bytes)
      ↔ text.dropHexMarker.length % 2 = 0 ∧ ∀ unit ∈ text.dropHexMarker.units, IsHexDigit unit := by
  rw [← isHex_iff, ofHex_eq]
  split
  · next isHex => exact iff_of_true ⟨_, rfl⟩ isHex
  · next notHex =>
    refine iff_of_false ?_ notHex
    split <;> nofun

/-- The length is looked at first. -/
theorem ofHex_eq_oddLength_iff :
    ofHex text = .error .oddLength ↔ text.dropHexMarker.length % 2 = 1 := by
  rw [ofHex_eq]
  split
  · next isHex =>
    refine iff_of_false nofun ?_
    have := (isHex_iff.mp isHex).1
    omega
  · split
    · next even => exact iff_of_false nofun (by omega)
    · next odd => exact iff_of_true rfl (by omega)

theorem ofHex_eq_badCharacter_iff :
    ofHex text = .error .badCharacter
      ↔ text.dropHexMarker.length % 2 = 0
        ∧ ∃ unit ∈ text.dropHexMarker.units, ¬ IsHexDigit unit := by
  rw [ofHex_eq]
  split
  · next isHex =>
    refine iff_of_false nofun ?_
    rintro ⟨-, unit, inside, noDigit⟩
    exact noDigit ((isHex_iff.mp isHex).2 unit inside)
  · next notHex =>
    rw [isHex_iff, not_and] at notHex
    split
    · next even =>
      have bad := notHex even
      simp only [Classical.not_forall, exists_prop] at bad
      exact iff_of_true rfl ⟨even, bad⟩
    · next odd => exact iff_of_false nofun fun both => odd both.1

end Verdicts

/-- A text is a hexadecimal form exactly if what stands behind its marker is an even number of
hexadecimal digits; then the bytes are written as these digits in lower case. Otherwise the fault
is an odd length exactly if what stands behind the marker has one, and a bad character if not.

Bytes are written by two digits each, all in lower case, and are read back from them, with or
without a marker. So whatever a codec writes in hexadecimal, in any mixture of cases and behind
either marker or none, is read as the bytes are that it stands for. -/
theorem forms_accepted_and_inverse :
    (∀ text, ∃! rest, IsBehindMarker text rest)
      ∧ (∀ text rest : Text, IsBehindMarker text rest →
          ((∃ bytes, ofHex text = .ok bytes)
              ↔ rest.length % 2 = 0 ∧ ∀ unit ∈ rest.units, IsHexDigit unit)
            ∧ (∀ bytes, ofHex text = .ok bytes → bytes.toHex = rest.lowercase)
            ∧ (ofHex text = .error .oddLength ↔ rest.length % 2 = 1)
            ∧ (ofHex text = .error .badCharacter
                ↔ rest.length % 2 = 0 ∧ ∃ unit ∈ rest.units, ¬ IsHexDigit unit))
      ∧ (∀ problem, (Fault.badHex problem).kind = .general
          ∧ (Fault.badHex problem).message = match problem with
            | .oddLength => "Invalid hex string: odd length"
            | .badCharacter => "Invalid hex string: bad character")
      ∧ (∀ bytes : Bytes,
          bytes.toHex.isHex = true ∧ bytes.toHex.length = 2 * bytes.length
            ∧ (∀ unit ∈ bytes.toHex.units, IsLowerHexDigit unit)
            ∧ ofHex bytes.toHex = .ok bytes ∧ ofHex ("0x" ++ bytes.toHex) = .ok bytes)
      ∧ ∀ (α : Type) (codec : Codec α) (value : α) (bytes : Bytes),
          codec.serialize value = .ok bytes →
            ∃ hex, codec.serializeHex value = .ok hex
              ∧ ∀ text : Text, (text.lowercase = hex ∨ text.lowercase = "0x" ++ hex) →
                  codec.decode.deserializeHex text = codec.decode.deserialize bytes := by
  refine ⟨fun text => ⟨text.dropHexMarker, isBehindMarker_iff.mpr rfl, ?_⟩, ?_, ?_, ?_, ?_⟩
  · exact fun rest behind => (isBehindMarker_iff.mp behind).symm
  · intro text rest behind
    obtain rfl := isBehindMarker_iff.mp behind
    exact ⟨exists_ofHex_iff, fun bytes => toHex_of_ofHex, ofHex_eq_oddLength_iff,
      ofHex_eq_badCharacter_iff⟩
  · intro problem
    cases problem <;> exact ⟨rfl, rfl⟩
  · intro bytes
    exact ⟨isHex_toHex bytes, length_toHex bytes, isLowerHexDigit_of_mem_toHex, ofHex_toHex bytes,
      ofHex_marked_toHex bytes⟩
  · intro α codec value bytes written
    refine ⟨bytes.toHex, by rw [Codec.serializeHex, written]; rfl, fun text isForm => ?_⟩
    have read : ofHex text = .ok bytes := by
      rw [← ofHex_lowercase]
      rcases isForm with same | same <;> rw [same]
      · exact ofHex_toHex bytes
      · exact ofHex_marked_toHex bytes
    rw [Decoder.deserializeHex, read]

/-- A form in mixed case behind a capital marker. A second marker is no digit, and a marker and
one digit are an odd length. What a codec has written is read back in capital letters. -/
theorem forms_accepted_and_inverse_mixed :
    (∃ bytes, ofHex "0XdEaD" = .ok bytes ∧ bytes.toHex = "dead")
      ∧ ofHex "0x0xab" = .error .badCharacter
      ∧ ofHex "0xa" = .error .oddLength
      ∧ Codec.u16.serialize 0xbeef = .ok [0xef, 0xbe]
      ∧ Codec.u16.decode.deserializeHex "0XEFBE" = .ok 0xbeef := by
  obtain ⟨-, accepts, -, -, reads⟩ := forms_accepted_and_inverse
  have mixed : IsBehindMarker "0XdEaD" "dEaD" := .inr (.inl (by decide))
  have twice : IsBehindMarker "0x0xab" "0xab" := .inl (by decide)
  have single : IsBehindMarker "0xa" "a" := .inl (by decide)
  have written : Codec.u16.serialize 0xbeef = .ok [0xef, 0xbe] := rfl
  refine ⟨?_, ?_, ?_, written, ?_⟩
  · obtain ⟨accepted, lower, -⟩ := accepts _ _ mixed
    obtain ⟨bytes, read⟩ := accepted.mpr (isHex_iff.mp (by decide))
    exact ⟨bytes, read, (lower bytes read).trans (by decide)⟩
  · exact (accepts _ _ twice).2.2.2.mpr ⟨by decide, 0x78, by decide, by decide⟩
  · exact (accepts _ _ single).2.2.1.mpr (by decide)
  · obtain ⟨hex, shown, alike⟩ := reads _ Codec.u16 0xbeef _ written
    have isHex : hex = "efbe" := by
      rw [Codec.serializeHex, written] at shown
      cases shown
      decide
    rw [alike "0XEFBE" (.inr (by rw [isHex]; decide))]
    exact Decoder.deserialize_eq_ok_iff.mpr rfl

end Bytes

end PeerWire
