import Mathlib.Tactic.SplitIfs
import PeerWire.Proofs.SequenceLaws

/-!
# Texts and strict UTF-8

Writing a text in UTF-8 repairs it and reading is strict, so the two are inverse where there is
nothing to repair. Both sides are described here without the functions that compute them.

On the side of texts, a surrogate is unpaired when the unit next to it is not the other half of
a pair (`isUnpaired`), and repairing puts U+FFFD in the place of every unpaired unit. A text is
taken apart pair by pair and unit by unit (`units_induction`); so are its points
(`points_pair`, `points_alone`), its repaired form, and the scan that looks one unit ahead and
steps over pairs (`scan`), which decides whether it is well formed (`isWellFormed_eq_scan`).

On the side of bytes, a character is laid out in one to four bytes (`Layout`). Strictly valid
are the sequences of layouts that are not overlong and spell neither a surrogate nor a number
above U+10FFFF (`IsStrict`). These are the ones that are read (`isSome_ofUtf8?_iff`).

The text format puts both together (`utf8_inverse_and_strict`). Behind a length, bytes that are
not UTF-8 are refused as such when there are at most four million of them. More bytes than that
are refused for their number, and what they are is not looked at
(`varString_refuses_oversized_unread`).
-/

set_option autoImplicit false

attribute [local instance (high)] instPowNat

namespace PeerWire

namespace Text

/-! ## Pairs -/

/-- Whether a unit is a surrogate without its other half, given the units before and after. -/
def isUnpaired (before? : Option UInt16) (unit : UInt16) (after? : Option UInt16) : Bool :=
  (isHigh unit && !after?.any isLow) || (isLow unit && !before?.any isHigh)

/-- Units with U+FFFD in the place of each unpaired one, given the unit before them. -/
def repairBehind (before? : Option UInt16) : List UInt16 → List UInt16
  | [] => []
  | unit :: rest =>
    (if isUnpaired before? unit rest.head? then 0xfffd else unit)
      :: repairBehind (some unit) rest

/-- The text with each unpaired surrogate replaced by U+FFFD. -/
def repaired (text : Text) : Text :=
  ⟨repairBehind none text.units⟩

/-- Looks for an unpaired surrogate from the front: behind a high one there must be a low one,
and the two are stepped over. -/
def scan : List UInt16 → Bool
  | [] => true
  | [unit] => !isHigh unit && !isLow unit
  | unit :: next :: rest =>
    if isHigh unit then isLow next && scan rest
    else if isLow unit then false
    else scan (next :: rest)

theorem isHigh_eq_false_of_isLow {unit : UInt16} (low : isLow unit = true) :
    isHigh unit = false := by
  rw [isLow_iff] at low
  rw [← Bool.not_eq_true, isHigh_iff]
  omega

/-- Units are pairs and units that begin no pair, one after the other. -/
@[elab_as_elim]
theorem units_induction {motive : List UInt16 → Prop} (nil : motive [])
    (pair : ∀ high low rest, isHigh high = true → isLow low = true → motive rest →
      motive (high :: low :: rest))
    (alone : ∀ unit rest, (isHigh unit = true → rest.head?.any isLow = false) → motive rest →
      motive (unit :: rest)) :
    ∀ units, motive units
  | [] => nil
  | [unit] => alone unit [] (fun _ => rfl) nil
  | unit :: next :: rest => by
    by_cases paired : isHigh unit = true ∧ isLow next = true
    · exact pair unit next rest paired.1 paired.2 (units_induction nil pair alone rest)
    · refine alone unit (next :: rest) (fun high => ?_)
        (units_induction nil pair alone (next :: rest))
      rw [List.head?_cons, Option.any_some, ← Bool.not_eq_true]
      exact fun low => paired ⟨high, low⟩

theorem points_cons (unit : UInt16) (rest : List UInt16) :
    (mk (unit :: rest)).points = Point.push unit (mk rest).points := rfl

/-- A pair in front is one point. -/
theorem points_pair {high low : UInt16} (highIsHigh : isHigh high = true)
    (lowIsLow : isLow low = true) (rest : List UInt16) :
    (mk (high :: low :: rest)).points = .char (joinPair high low) :: (mk rest).points := by
  rw [points_cons, points_cons, push_of_not_isHigh (isHigh_eq_false_of_isLow lowIsLow),
    Point.single, lowIsLow, Bool.or_true, if_pos rfl, Point.push, highIsHigh, lowIsLow,
    Bool.and_self, if_pos rfl]

/-- A unit in front that begins no pair is a point of its own. -/
theorem points_alone {unit : UInt16} {rest : List UInt16}
    (alone : isHigh unit = true → rest.head?.any isLow = false) :
    (mk (unit :: rest)).points = .single unit :: (mk rest).points := by
  have held : (mk rest).points.flatMap Point.units = rest := flatMap_units_points (mk rest)
  rw [points_cons]
  generalize (mk rest).points = points at held
  unfold Point.push
  split
  · next next behind =>
    -- the lone point behind is the next unit, which therefore is no low surrogate
    rw [List.flatMap_cons, Point.units, List.singleton_append] at held
    have notBoth : (isHigh unit && isLow next) = false := by
      rw [← Bool.not_eq_true, Bool.and_eq_true]
      rintro ⟨high, low⟩
      have notLow := alone high
      rw [← held, List.head?_cons, Option.any_some, low] at notLow
      cases notLow
    rw [notBoth]
    rfl
  · rfl

/-- Whether a text is well formed can be seen by looking at each unit and the next. -/
theorem isWellFormed_eq_scan (text : Text) : text.isWellFormed = scan text.units := by
  obtain ⟨units⟩ := text
  dsimp only
  induction units using units_induction with
  | nil => rfl
  | pair high low rest highIsHigh lowIsLow ih =>
    rw [isWellFormed, points_pair highIsHigh lowIsLow, List.all_cons, scan, if_pos highIsHigh,
      lowIsLow, ← ih]
    rfl
  | alone unit rest alone ih =>
    rw [isWellFormed, points_alone alone, List.all_cons, ← isWellFormed, ih]
    have lone : (Point.single unit).isChar = (!isHigh unit && !isLow unit) := by
      rw [Point.single, ← Bool.not_or]
      cases isHigh unit || isLow unit <;> rfl
    rw [lone]
    cases rest with
    | nil =>
      rw [scan, scan, Bool.and_true]
    | cons next rest =>
      rw [scan]
      split_ifs with high low
      · have notLow := alone high
        rw [List.head?_cons, Option.any_some] at notLow
        rw [high, notLow]
        rfl
      · rw [low, Bool.not_true, Bool.and_false, Bool.false_and]
      · rw [Bool.not_eq_true] at high low
        rw [high, low, Bool.not_false, Bool.and_self, Bool.true_and]

/-! ## Repairing -/

/-- The character that stands for a point: U+FFFD for a lone surrogate. -/
def Point.shown : Point → Char
  | .char c => c
  | .lone _ => '\ufffd'

theorem replacement_eq : replacement = String.utf8EncodeChar '\ufffd' := by decide

theorem toUtf8_eq_shown (text : Text) :
    text.toUtf8 = (text.points.map Point.shown).flatMap String.utf8EncodeChar := by
  rw [toUtf8, List.flatMap_map]
  congr 1
  funext point
  cases point with
  | char c => rfl
  | lone unit => exact replacement_eq

/-- The units of what stands for a unit that is no part of a pair. -/
theorem unitsOfChar_shown_single (unit : UInt16) :
    unitsOfChar (Point.single unit).shown
      = [if isHigh unit || isLow unit then 0xfffd else unit] := by
  have own := units_single unit
  rw [Point.single] at own ⊢
  split_ifs at own ⊢
  · rfl
  · exact own

/-- What stands for the points of units is the units repaired, if they do not begin with the
second half of a pair. -/
theorem flatMap_shown_points {before? : Option UInt16} {units : List UInt16}
    (begins : units.head?.any isLow = true → before?.any isHigh = false) :
    ((mk units).points.map Point.shown).flatMap unitsOfChar = repairBehind before? units := by
  induction units using units_induction generalizing before? with
  | nil => rfl
  | pair high low rest highIsHigh lowIsLow ih =>
    have notLow : isLow high = false := by
      rw [← Bool.not_eq_true]
      intro low
      rw [isHigh_eq_false_of_isLow low] at highIsHigh
      cases highIsHigh
    have notHigh := isHigh_eq_false_of_isLow lowIsLow
    have behind : ((mk rest).points.map Point.shown).flatMap unitsOfChar
        = repairBehind (some low) rest := ih fun _ => notHigh
    rw [points_pair highIsHigh lowIsLow, List.map_cons, List.flatMap_cons, Point.shown,
      unitsOfChar_joinPair highIsHigh lowIsLow, behind, repairBehind, repairBehind]
    simp [isUnpaired, highIsHigh, lowIsLow, notLow, notHigh]
  | alone unit rest alone ih =>
    have behind : ((mk rest).points.map Point.shown).flatMap unitsOfChar
        = repairBehind (some unit) rest := by
      refine ih fun low => ?_
      rw [Option.any_some, ← Bool.not_eq_true]
      intro high
      rw [alone high] at low
      cases low
    have unpaired : isUnpaired before? unit rest.head? = (isHigh unit || isLow unit) := by
      rw [isUnpaired]
      cases high : isHigh unit with
      | true => rw [alone high]; rfl
      | false =>
        cases low : isLow unit with
        | true => rw [begins low]; rfl
        | false => rfl
    rw [points_alone alone, List.map_cons, List.flatMap_cons, unitsOfChar_shown_single, behind,
      repairBehind, unpaired]
    rfl

/-- Reading the UTF-8 form of a text gives the text repaired. -/
theorem ofUtf8?_toUtf8_eq_repaired (text : Text) : ofUtf8? text.toUtf8 = some text.repaired := by
  refine ofUtf8?_eq_some_iff.mpr ⟨text.points.map Point.shown, toUtf8_eq_shown text, ?_⟩
  have begins : text.units.head?.any isLow = true → (none : Option UInt16).any isHigh = false :=
    fun _ => rfl
  rw [ofChars, flatMap_shown_points begins, repaired]

/-- Exactly the well-formed texts need no repair. -/
theorem repaired_eq_self_iff {text : Text} : text.repaired = text ↔ text.isWellFormed = true := by
  have read := ofUtf8?_toUtf8_eq_repaired text
  constructor
  · intro same
    rw [same] at read
    exact (toUtf8_of_ofUtf8? read).1
  · intro wellFormed
    rw [ofUtf8?_toUtf8 wellFormed] at read
    exact (Option.some.inj read).symm

/-! ## Strict UTF-8 -/

/-- The bytes that spell out a number, by the bits that are free in them: `0xxxxxxx`,
`110xxxxx 10xxxxxx`, `1110xxxx 10xxxxxx 10xxxxxx` and
`11110xxx 10xxxxxx 10xxxxxx 10xxxxxx`. -/
inductive Layout : Bytes → Nat → Prop where
  | one {a : Nat} : a < 0x80 → Layout [UInt8.ofNat a] a
  | two {a b : Nat} : a < 0x20 → b < 0x40 →
      Layout [UInt8.ofNat (a + 0xc0), UInt8.ofNat (b + 0x80)] (0x40 * a + b)
  | three {a b c : Nat} : a < 0x10 → b < 0x40 → c < 0x40 →
      Layout [UInt8.ofNat (a + 0xe0), UInt8.ofNat (b + 0x80), UInt8.ofNat (c + 0x80)]
        (0x1000 * a + 0x40 * b + c)
  | four {a b c d : Nat} : a < 0x08 → b < 0x40 → c < 0x40 → d < 0x40 →
      Layout [UInt8.ofNat (a + 0xf0), UInt8.ofNat (b + 0x80), UInt8.ofNat (c + 0x80),
          UInt8.ofNat (d + 0x80)]
        (0x40000 * a + 0x1000 * b + 0x40 * c + d)

/-- The bytes of one character: no fewer bytes spell out the same number, and the number is no
surrogate and not above U+10FFFF. -/
structure IsStrictChar (bytes : Bytes) (code : Nat) : Prop where
  layout : Layout bytes code
  notOverlong : ∀ other, Layout other code → bytes.length ≤ other.length
  notSurrogate : ¬ (0xd800 ≤ code ∧ code ≤ 0xdfff)
  notAbove : code ≤ 0x10ffff

/-- Strictly valid UTF-8: the bytes of characters, one after the other and nothing else. -/
inductive IsStrict : Bytes → Prop where
  | nil : IsStrict []
  | cons {front rest : Bytes} {code : Nat} : IsStrictChar front code → IsStrict rest →
      IsStrict (front ++ rest)

/-- The bytes that spell out a number, given how many they are. -/
def spell (length code : Nat) : Bytes :=
  match length with
  | 1 => [UInt8.ofNat code]
  | 2 => [UInt8.ofNat (code / 0x40 + 0xc0), UInt8.ofNat (code % 0x40 + 0x80)]
  | 3 => [UInt8.ofNat (code / 0x1000 + 0xe0), UInt8.ofNat (code / 0x40 % 0x40 + 0x80),
      UInt8.ofNat (code % 0x40 + 0x80)]
  | _ => [UInt8.ofNat (code / 0x40000 + 0xf0), UInt8.ofNat (code / 0x1000 % 0x40 + 0x80),
      UInt8.ofNat (code / 0x40 % 0x40 + 0x80), UInt8.ofNat (code % 0x40 + 0x80)]

/-- A number has one layout of each length. -/
theorem Layout.eq_spell {bytes : Bytes} {code : Nat} (spelled : Layout bytes code) :
    bytes = spell bytes.length code := by
  cases spelled with
  | one small => rfl
  | @two a b smallA smallB =>
    have first : (0x40 * a + b) / 0x40 = a := by omega
    have second : (0x40 * a + b) % 0x40 = b := by omega
    simp only [List.length_cons, List.length_nil, spell, first, second]
  | @three a b c smallA smallB smallC =>
    have first : (0x1000 * a + 0x40 * b + c) / 0x1000 = a := by omega
    have second : (0x1000 * a + 0x40 * b + c) / 0x40 % 0x40 = b := by omega
    have third : (0x1000 * a + 0x40 * b + c) % 0x40 = c := by omega
    simp only [List.length_cons, List.length_nil, spell, first, second, third]
  | @four a b c d smallA smallB smallC smallD =>
    have first : (0x40000 * a + 0x1000 * b + 0x40 * c + d) / 0x40000 = a := by omega
    have second : (0x40000 * a + 0x1000 * b + 0x40 * c + d) / 0x1000 % 0x40 = b := by omega
    have third : (0x40000 * a + 0x1000 * b + 0x40 * c + d) / 0x40 % 0x40 = c := by omega
    have fourth : (0x40000 * a + 0x1000 * b + 0x40 * c + d) % 0x40 = d := by omega
    simp only [List.length_cons, List.length_nil, spell, first, second, third, fourth]

/-- A character is laid out in the bytes that it is encoded as. -/
theorem layout_utf8EncodeChar (c : Char) : Layout (String.utf8EncodeChar c) c.toNat := by
  have valid := toNat_valid c
  have same : c.val.toNat = c.toNat := rfl
  rw [String.utf8EncodeChar, same]
  split_ifs with within1 within2 within3
  · exact .one (by omega)
  · have spelled := Layout.two (a := c.toNat / 64 % 32) (b := c.toNat % 64)
      (Nat.mod_lt _ (by decide)) (Nat.mod_lt _ (by decide))
    have code : 0x40 * (c.toNat / 64 % 32) + c.toNat % 64 = c.toNat := by omega
    rwa [code] at spelled
  · have spelled := Layout.three (a := c.toNat / 4096 % 16) (b := c.toNat / 64 % 64)
      (c := c.toNat % 64) (Nat.mod_lt _ (by decide)) (Nat.mod_lt _ (by decide))
      (Nat.mod_lt _ (by decide))
    have code : 0x1000 * (c.toNat / 4096 % 16) + 0x40 * (c.toNat / 64 % 64) + c.toNat % 64
        = c.toNat := by omega
    rwa [code] at spelled
  · have spelled := Layout.four (a := c.toNat / 262144 % 8) (b := c.toNat / 4096 % 64)
      (c := c.toNat / 64 % 64) (d := c.toNat % 64) (Nat.mod_lt _ (by decide))
      (Nat.mod_lt _ (by decide)) (Nat.mod_lt _ (by decide)) (Nat.mod_lt _ (by decide))
    have code : 0x40000 * (c.toNat / 262144 % 8) + 0x1000 * (c.toNat / 4096 % 64)
        + 0x40 * (c.toNat / 64 % 64) + c.toNat % 64 = c.toNat := by omega
    rwa [code] at spelled

/-- The code of a character is spelled out by no fewer bytes than it is encoded as. -/
theorem length_utf8EncodeChar_le {c : Char} {other : Bytes} (spelled : Layout other c.toNat) :
    (String.utf8EncodeChar c).length ≤ other.length := by
  have same : c.val.toNat = c.toNat := rfl
  rw [String.utf8EncodeChar, same]
  generalize c.toNat = code at spelled
  cases spelled <;> split_ifs <;> simp only [List.length_cons, List.length_nil] <;> omega

/-- The bytes of characters by their layout are the encodings of characters. -/
theorem exists_isStrictChar_iff {bytes : Bytes} :
    (∃ code, IsStrictChar bytes code) ↔ ∃ c : Char, bytes = String.utf8EncodeChar c := by
  constructor
  · rintro ⟨code, layout, notOverlong, notSurrogate, notAbove⟩
    have valid : (Char.ofNat code).toNat = code := by
      refine toNat_ofNat_of_valid ?_
      rw [Nat.isValidChar]
      omega
    have encoded := layout_utf8EncodeChar (Char.ofNat code)
    have least := length_utf8EncodeChar_le (c := Char.ofNat code) (valid.symm ▸ layout)
    rw [valid] at encoded
    have size : bytes.length = (String.utf8EncodeChar (Char.ofNat code)).length :=
      Nat.le_antisymm (notOverlong _ encoded) least
    exact ⟨Char.ofNat code, by rw [layout.eq_spell, encoded.eq_spell, size]⟩
  · rintro ⟨c, rfl⟩
    have valid := toNat_valid c
    exact ⟨c.toNat, layout_utf8EncodeChar c, fun _ => length_utf8EncodeChar_le, by omega, by omega⟩

/-- Strictly valid are the encodings of lists of characters. -/
theorem isStrict_iff {bytes : Bytes} :
    IsStrict bytes ↔ ∃ chars : List Char, bytes = chars.flatMap String.utf8EncodeChar := by
  constructor
  · intro strict
    induction strict with
    | nil => exact ⟨[], rfl⟩
    | cons front _ ih =>
      obtain ⟨c, rfl⟩ := exists_isStrictChar_iff.mp ⟨_, front⟩
      obtain ⟨chars, rfl⟩ := ih
      exact ⟨c :: chars, rfl⟩
  · rintro ⟨chars, rfl⟩
    induction chars with
    | nil => exact .nil
    | cons c chars ih =>
      obtain ⟨code, front⟩ := exists_isStrictChar_iff.mpr ⟨c, rfl⟩
      exact .cons front ih

/-- Strictly valid UTF-8 is read, and nothing else. -/
theorem isSome_ofUtf8?_iff {bytes : Bytes} : (ofUtf8? bytes).isSome = true ↔ IsStrict bytes := by
  rw [Option.isSome_iff_exists, isStrict_iff]
  simp only [ofUtf8?_eq_some_iff]
  constructor
  · rintro ⟨text, chars, encoded, -⟩
    exact ⟨chars, encoded⟩
  · rintro ⟨chars, encoded⟩
    exact ⟨ofChars chars, chars, encoded, rfl⟩

/-- No character begins with the byte `ff`. -/
theorem not_isStrict_ff_cons (rest : Bytes) : ¬ IsStrict (0xff :: rest) := by
  intro strict
  generalize whole : 0xff :: rest = bytes at strict
  cases strict with
  | nil => cases whole
  | cons front behind =>
    have layout := front.layout
    cases layout <;>
    · rw [List.cons_append, List.cons.injEq, ← UInt8.toNat_inj, UInt8.toNat_ofNat'] at whole
      have first : (0xff : UInt8).toNat = 255 := rfl
      omega

/-- A byte order mark in front is read as a unit of the text. -/
theorem ofUtf8?_bom_append {bytes : Bytes} {text : Text} (read : ofUtf8? bytes = some text) :
    ofUtf8? ([0xef, 0xbb, 0xbf] ++ bytes) = some ⟨0xfeff :: text.units⟩ := by
  obtain ⟨chars, rfl, rfl⟩ := ofUtf8?_eq_some_iff.mp read
  have mark : [0xef, 0xbb, 0xbf] = String.utf8EncodeChar '\ufeff' := by decide
  refine ofUtf8?_eq_some_iff.mpr ⟨'\ufeff' :: chars, ?_, rfl⟩
  rw [List.flatMap_cons, mark]

end Text

namespace Codec

/-! ## Texts behind a length -/

/-- As many bytes as a number can count are written behind their length. -/
theorem serialize_varBytes_of_safe {bytes : Bytes} (safe : bytes.length ≤ Number.maxSafe) :
    varBytes.serialize bytes = .ok ((countOf bytes.length).toBytes ++ bytes) := by
  rw [varBytes_eq_counted]
  exact serialize_counted_eq_ok.mpr ⟨safe, bytes, Emission.toExcept_chunk bytes, rfl⟩

/-- Bytes without a form fail for their number. -/
theorem serialize_varBytes_ne_unpairedSurrogate (bytes : Bytes) (text : Text) :
    varBytes.serialize bytes ≠ .error (.unpairedSurrogate text) := by
  rw [serialize, varBytes]
  dsimp only
  cases magnitude : VarInt.ofNumber (.int bytes.length) with
  | ok varInt => exact fun impossible => by cases impossible
  | error fault =>
    intro failed
    change Except.error fault = _ at failed
    cases failed
    rw [VarInt.ofNumber, VarInt.ofInt] at magnitude
    split_ifs at magnitude <;> cases magnitude

/-- Writing a text names it as unpaired exactly if it is not well formed. -/
theorem serialize_varString_eq_unpairedSurrogate_iff {text named : Text} :
    varString.serialize text = .error (.unpairedSurrogate named)
      ↔ text.isWellFormed = false ∧ named = text := by
  rw [serialize, varString]
  dsimp only
  split_ifs with wellFormed
  · rw [wellFormed]
    constructor
    · intro failed
      exact absurd failed (serialize_varBytes_ne_unpairedSurrogate _ _)
    · rintro ⟨⟨⟩, -⟩
  · rw [Emission.toExcept_fail]
    simp [wellFormed, eq_comm]

/-- Bytes behind their length, within the ceiling, are a text if they are UTF-8. -/
theorem parse_varString_of_fits {bytes prefixed : Bytes}
    (written : varBytes.serialize bytes = .ok prefixed) (fits : bytes.length ≤ maxSequenceSize)
    (suffix : Bytes) :
    varString.decode.parse (prefixed ++ suffix)
      = match Text.ofUtf8? bytes with
        | some text => (.ok text, suffix)
        | none => (.error (.consensus (.parseFailed .notUtf8)), suffix) := by
  have front := restores_varBytes.restored written (Demand.refusal?_of_fits fits) suffix
  rw [varString, Decoder.parse_bind_of_ok front]
  cases Text.ofUtf8? bytes <;> rfl

/-- Bytes behind their length, above the ceiling, are refused for their number. -/
theorem parse_varString_of_large {bytes prefixed : Bytes}
    (written : varBytes.serialize bytes = .ok prefixed) (large : maxSequenceSize < bytes.length)
    (suffix : Bytes) :
    (varString.decode.parse (prefixed ++ suffix)).1
      = .error (.consensus (.oversizedAllocation bytes.length (.int maxSequenceSize))) := by
  have safe : bytes.length ≤ Number.maxSafe := by
    rw [varBytes_eq_counted] at written
    exact (serialize_counted_eq_ok.mp written).1
  have ceiling : Number.maxSafe < maxUnsigned64 := by decide
  have refusal : Demand.refusal? [⟨bytes.length, 1⟩]
      = some (.oversizedAllocation bytes.length (.int maxSequenceSize)) := by
    rw [Demand.refusal?, Demand.refusal, Demand.room_bytes, if_neg (by omega), if_neg (by omega)]
  have refused := restores_varBytes.refused written refusal suffix
  rw [varString, Decoder.parse_bind_of_error refused]

/-- The UTF-8 form of every text is read, as the text with each unpaired surrogate replaced;
that is the text itself exactly if it is well formed, as the scan decides. A text is refused by
the text format as unpaired exactly if it is not well formed.

A byte string is read exactly if it is strictly valid. Then what is read is well formed, its
UTF-8 form is the byte string, and a byte order mark in front would be one more unit. Behind
their length, bytes within the ceiling are refused as no UTF-8 exactly if they are not read, and
are the text that is read otherwise. More bytes are refused for their number. -/
theorem utf8_inverse_and_strict :
    (∀ text : Text,
        Text.ofUtf8? text.toUtf8 = some text.repaired
          ∧ (text.repaired = text ↔ text.isWellFormed = true)
          ∧ text.isWellFormed = Text.scan text.units
          ∧ ∀ named, varString.serialize text = .error (.unpairedSurrogate named)
              ↔ text.isWellFormed = false ∧ named = text)
      ∧ ∀ bytes : Bytes,
          ((Text.ofUtf8? bytes).isSome = true ↔ Text.IsStrict bytes)
            ∧ (∀ text, Text.ofUtf8? bytes = some text →
                text.isWellFormed = true ∧ text.toUtf8 = bytes
                  ∧ Text.ofUtf8? ([0xef, 0xbb, 0xbf] ++ bytes) = some ⟨0xfeff :: text.units⟩)
            ∧ ∀ prefixed suffix : Bytes, varBytes.serialize bytes = .ok prefixed →
                (bytes.length ≤ maxSequenceSize →
                    (varString.decode.deserializePartial (prefixed ++ suffix)
                        = .error (.consensus (.parseFailed .notUtf8))
                      ↔ Text.ofUtf8? bytes = none)
                    ∧ ∀ text, Text.ofUtf8? bytes = some text →
                        varString.decode.deserializePartial (prefixed ++ suffix)
                          = .ok ⟨text, prefixed.length⟩)
                  ∧ (maxSequenceSize < bytes.length →
                      varString.decode.deserializePartial (prefixed ++ suffix)
                        = .error (.consensus
                            (.oversizedAllocation bytes.length (.int maxSequenceSize)))) := by
  constructor
  · intro text
    exact ⟨Text.ofUtf8?_toUtf8_eq_repaired text, Text.repaired_eq_self_iff,
      Text.isWellFormed_eq_scan text, fun _ => serialize_varString_eq_unpairedSurrogate_iff⟩
  · intro bytes
    refine ⟨Text.isSome_ofUtf8?_iff, ?_, ?_⟩
    · intro text read
      obtain ⟨wellFormed, same⟩ := Text.toUtf8_of_ofUtf8? read
      exact ⟨wellFormed, same, Text.ofUtf8?_bom_append read⟩
    · intro prefixed suffix written
      constructor
      · intro fits
        have parsed := parse_varString_of_fits written fits suffix
        cases read : Text.ofUtf8? bytes with
        | none =>
          rw [read] at parsed
          refine ⟨iff_of_true ?_ rfl, fun _ impossible => by cases impossible⟩
          exact Decoder.deserializePartial_of_error (congrArg Prod.fst parsed)
        | some found =>
          rw [read] at parsed
          have value := Decoder.deserializePartial_append parsed
          refine ⟨?_, ?_⟩
          · rw [value]
            exact iff_of_false (fun impossible => by cases impossible)
              (fun impossible => by cases impossible)
          · intro text same
            cases same
            exact value
      · intro large
        exact Decoder.deserializePartial_of_error (parse_varString_of_large written large suffix)

/-- A complete encoding of bytes that are no UTF-8 is not refused as such if there are more of
them than the ceiling allows. -/
theorem varString_refuses_oversized_unread :
    Text.ofUtf8? (List.replicate 4000001 0xff) = none
      ∧ varBytes.serialize (List.replicate 4000001 0xff)
          = .ok ([0xfe, 0x01, 0x09, 0x3d, 0x00] ++ List.replicate 4000001 0xff)
      ∧ varString.decode.deserializePartial
            ([0xfe, 0x01, 0x09, 0x3d, 0x00] ++ List.replicate 4000001 0xff)
          = .error (.consensus (.oversizedAllocation 4000001 (.int 4000000)))
      ∧ varString.decode.deserializePartial
            ([0xfe, 0x01, 0x09, 0x3d, 0x00] ++ List.replicate 4000001 0xff)
          ≠ .error (.consensus (.parseFailed .notUtf8)) := by
  have written : varBytes.serialize (List.replicate 4000001 0xff)
      = .ok ([0xfe, 0x01, 0x09, 0x3d, 0x00] ++ List.replicate 4000001 0xff) := by
    have front : (countOf 4000001).toBytes = [0xfe, 0x01, 0x09, 0x3d, 0x00] := by decide
    rw [serialize_varBytes_of_safe (by rw [List.length_replicate]; decide), List.length_replicate,
      front]
  have unread : Text.ofUtf8? (List.replicate 4000001 0xff) = none := by
    rw [← Option.not_isSome_iff_eq_none, Text.isSome_ofUtf8?_iff, List.replicate_succ]
    exact Text.not_isStrict_ff_cons _
  have large : maxSequenceSize < (List.replicate 4000001 (0xff : UInt8)).length := by
    rw [List.length_replicate]
    decide
  have refused := Decoder.deserializePartial_of_error (parse_varString_of_large written large [])
  rw [List.append_nil, List.length_replicate] at refused
  refine ⟨unread, written, refused, ?_⟩
  rw [refused]
  exact fun impossible => by cases impossible

/-- A pair between a lone second half and a lone first half; a byte order mark and a letter; a
byte that begins no character; and more bytes than the ceiling allows. -/
theorem utf8_inverse_and_strict_mixed :
    (Text.ofUtf8? (Text.mk [0xde00, 0xd83d, 0xde00, 0xd83d]).toUtf8
          = some ⟨[0xfffd, 0xd83d, 0xde00, 0xfffd]⟩
        ∧ varString.serialize ⟨[0xde00, 0xd83d, 0xde00, 0xd83d]⟩
          = .error (.unpairedSurrogate ⟨[0xde00, 0xd83d, 0xde00, 0xd83d]⟩))
      ∧ (Text.ofUtf8? [0xef, 0xbb, 0xbf, 0x61] = some ⟨[0xfeff, 0x61]⟩
        ∧ (Text.mk [0xfeff, 0x61]).toUtf8 = [0xef, 0xbb, 0xbf, 0x61]
        ∧ varString.decode.deserializePartial [0x04, 0xef, 0xbb, 0xbf, 0x61, 0x07]
          = .ok ⟨⟨[0xfeff, 0x61]⟩, 5⟩)
      ∧ varString.decode.deserializePartial [0x01, 0xff, 0x07]
          = .error (.consensus (.parseFailed .notUtf8))
      ∧ varString.decode.deserializePartial
            ([0xfe, 0x01, 0x09, 0x3d, 0x00] ++ List.replicate 4000001 0x61)
          = .error (.consensus (.oversizedAllocation 4000001 (.int 4000000))) := by
  obtain ⟨writes, reads⟩ := utf8_inverse_and_strict
  have marked : Text.ofUtf8? [0xef, 0xbb, 0xbf, 0x61] = some ⟨[0xfeff, 0x61]⟩ := by
    have letter : Text.ofUtf8? [0x61] = some ⟨[0x61]⟩ :=
      Text.ofUtf8?_eq_some_iff.mpr ⟨['a'], by decide, by decide⟩
    exact ((reads [0x61]).2.1 _ letter).2.2
  refine ⟨⟨?_, ?_⟩, ⟨marked, ?_, ?_⟩, ?_, ?_⟩
  · exact (writes ⟨[0xde00, 0xd83d, 0xde00, 0xd83d]⟩).1
  · exact ((writes ⟨[0xde00, 0xd83d, 0xde00, 0xd83d]⟩).2.2.2 _).mpr ⟨by decide, rfl⟩
  · exact ((reads _).2.1 _ marked).2.1
  · have wrote : varBytes.serialize [0xef, 0xbb, 0xbf, 0x61]
        = .ok [0x04, 0xef, 0xbb, 0xbf, 0x61] := rfl
    exact (((reads _).2.2 _ [0x07] wrote).1 (by decide)).2 _ marked
  · have wrote : varBytes.serialize [0xff] = .ok [0x01, 0xff] := rfl
    refine (((reads [0xff]).2.2 _ [0x07] wrote).1 (by decide)).1.mpr ?_
    rw [← Option.not_isSome_iff_eq_none, Text.isSome_ofUtf8?_iff]
    exact Text.not_isStrict_ff_cons []
  · have safe : (List.replicate 4000001 (0x61 : UInt8)).length ≤ Number.maxSafe := by
      rw [List.length_replicate]
      decide
    have large : maxSequenceSize < (List.replicate 4000001 (0x61 : UInt8)).length := by
      rw [List.length_replicate]
      decide
    have refused := ((reads _).2.2 _ [] (serialize_varBytes_of_safe safe)).2 large
    have front : (countOf 4000001).toBytes = [0xfe, 0x01, 0x09, 0x3d, 0x00] := by decide
    rw [List.append_nil, List.length_replicate, front] at refused
    exact refused

end Codec

end PeerWire
