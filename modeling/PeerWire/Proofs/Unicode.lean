import PeerWire.Text.Utf8

/-!
# Texts, characters and UTF-8

A text is well formed exactly when it is the text of a list of characters
(`isWellFormed_iff`), and that list is unique: reading the text of characters into
points gives the characters back (`points_ofChars`), because a high surrogate that a
character is written with always finds its partner. No unit is lost on the way
(`flatMap_units_points`).

Both directions of UTF-8 go through the list of characters, so they are inverse
exactly on well-formed texts (`ofUtf8?_toUtf8`, `toUtf8_of_ofUtf8?`). A text whose
UTF-8 form is ASCII is that form, unit by unit (`eq_of_isAscii_toUtf8`,
`toUtf8_of_isAscii`).
-/

set_option autoImplicit false

attribute [local instance (high)] instPowNat

namespace PeerWire

namespace Text

/-! ## Surrogates -/

theorem isHigh_iff {unit : UInt16} :
    isHigh unit = true ↔ 0xd800 ≤ unit.toNat ∧ unit.toNat ≤ 0xdbff := by
  simp only [isHigh, Bool.and_eq_true, decide_eq_true_eq, UInt16.le_iff_toNat_le]
  rfl

theorem isLow_iff {unit : UInt16} :
    isLow unit = true ↔ 0xdc00 ≤ unit.toNat ∧ unit.toNat ≤ 0xdfff := by
  simp only [isLow, Bool.and_eq_true, decide_eq_true_eq, UInt16.le_iff_toNat_le]
  rfl

/-- The code of a character is no surrogate and stays below seventeen planes. -/
theorem toNat_valid (c : Char) :
    c.toNat < 0xd800 ∨ (0xdfff < c.toNat ∧ c.toNat < 0x110000) :=
  c.valid

theorem toNat_ofNat_of_valid {code : Nat} (valid : code.isValidChar) :
    (Char.ofNat code).toNat = code := by
  rw [Char.ofNat, dif_pos valid]
  rfl

/-- The code units of a point. -/
def Point.units : Point → List UInt16
  | .char c => unitsOfChar c
  | .lone unit => [unit]

theorem units_single (unit : UInt16) : (Point.single unit).units = [unit] := by
  rw [Point.single]
  split
  · rfl
  · next noSurrogate =>
    rw [Bool.or_eq_true, not_or, isHigh_iff, isLow_iff] at noSurrogate
    have small := unit.toNat_lt
    have code : (Char.ofNat unit.toNat).toNat = unit.toNat := by
      refine toNat_ofNat_of_valid ?_
      rw [Nat.isValidChar]
      omega
    rw [Point.units, unitsOfChar, code, if_pos small, UInt16.ofNat_toNat]

theorem unitsOfChar_joinPair {high low : UInt16} (isHigh : isHigh high = true)
    (isLow : isLow low = true) : unitsOfChar (joinPair high low) = [high, low] := by
  rw [isHigh_iff] at isHigh
  rw [isLow_iff] at isLow
  have code : (joinPair high low).toNat
      = 0x10000 + (high.toNat - 0xd800) * 0x400 + (low.toNat - 0xdc00) := by
    refine toNat_ofNat_of_valid ?_
    rw [Nat.isValidChar]
    omega
  have front : 0xd800 + ((joinPair high low).toNat - 0x10000) / 0x400 = high.toNat := by omega
  have back : 0xdc00 + ((joinPair high low).toNat - 0x10000) % 0x400 = low.toNat := by omega
  rw [unitsOfChar, if_neg (by omega), front, back, UInt16.ofNat_toNat, UInt16.ofNat_toNat]

/-- Putting a unit in front of points puts it in front of their units. -/
theorem flatMap_units_push (unit : UInt16) (points : List Point) :
    (Point.push unit points).flatMap Point.units = unit :: points.flatMap Point.units := by
  have alone : ∀ rest : List Point,
      (Point.single unit :: rest).flatMap Point.units = unit :: rest.flatMap Point.units := by
    intro rest
    rw [List.flatMap_cons, units_single, List.singleton_append]
  unfold Point.push
  split
  · next next rest =>
    split
    · next paired =>
      rw [Bool.and_eq_true] at paired
      rw [List.flatMap_cons, Point.units, unitsOfChar_joinPair paired.1 paired.2,
        List.flatMap_cons, Point.units]
      rfl
    · exact alone _
  · exact alone _

/-- The points of a text hold all of its units, in order. -/
theorem flatMap_units_points (text : Text) : text.points.flatMap Point.units = text.units := by
  obtain ⟨units⟩ := text
  simp only [points]
  induction units with
  | nil => rfl
  | cons unit rest ih => rw [List.foldr_cons, flatMap_units_push, ih]

/-! ## Texts of characters -/

/-- A unit that is no high surrogate stays a point of its own. -/
theorem push_of_not_isHigh {unit : UInt16} (notHigh : isHigh unit = false) (points : List Point) :
    Point.push unit points = .single unit :: points := by
  unfold Point.push
  split
  · rw [notHigh, Bool.false_and, if_neg (by decide)]
  · rfl

/-- A character in front of points is read back, whatever the points are. -/
theorem push_unitsOfChar (c : Char) (points : List Point) :
    (unitsOfChar c).foldr Point.push points = .char c :: points := by
  have valid := toNat_valid c
  unfold unitsOfChar
  dsimp only
  split
  · next small =>
    have code : (UInt16.ofNat c.toNat).toNat = c.toNat := UInt16.toNat_ofNat_of_lt small
    have notHigh : isHigh (UInt16.ofNat c.toNat) = false := by
      rw [← Bool.not_eq_true, isHigh_iff]
      omega
    have notLow : isLow (UInt16.ofNat c.toNat) = false := by
      rw [← Bool.not_eq_true, isLow_iff]
      omega
    rw [List.foldr_cons, List.foldr_nil, push_of_not_isHigh notHigh, Point.single, notHigh, notLow,
      code, Char.ofNat_toNat]
    rfl
  · next large =>
    generalize highEq : UInt16.ofNat (0xd800 + (c.toNat - 0x10000) / 0x400) = high
    generalize lowEq : UInt16.ofNat (0xdc00 + (c.toNat - 0x10000) % 0x400) = low
    have highCode : high.toNat = 0xd800 + (c.toNat - 0x10000) / 0x400 := by
      rw [← highEq]
      exact UInt16.toNat_ofNat_of_lt (show _ < 2 ^ (16 : Nat) by omega)
    have lowCode : low.toNat = 0xdc00 + (c.toNat - 0x10000) % 0x400 := by
      rw [← lowEq]
      exact UInt16.toNat_ofNat_of_lt (show _ < 2 ^ (16 : Nat) by omega)
    have lowNotHigh : isHigh low = false := by
      rw [← Bool.not_eq_true, isHigh_iff]
      omega
    have lowIsLow : isLow low = true := isLow_iff.mpr (by omega)
    have highIsHigh : isHigh high = true := isHigh_iff.mpr (by omega)
    have joined : joinPair high low = c := by
      have code : 0x10000 + (high.toNat - 0xd800) * 0x400 + (low.toNat - 0xdc00) = c.toNat := by
        omega
      rw [joinPair, code, Char.ofNat_toNat]
    rw [List.foldr_cons, List.foldr_cons, List.foldr_nil, push_of_not_isHigh lowNotHigh,
      Point.single, lowIsLow, Bool.or_true, if_pos rfl]
    rw [Point.push, highIsHigh, lowIsLow, Bool.and_self, if_pos rfl, joined]

/-- The points of the text of characters are the characters. -/
theorem points_ofChars (chars : List Char) : (ofChars chars).points = chars.map .char := by
  simp only [points, ofChars]
  induction chars with
  | nil => rfl
  | cons c rest ih =>
    rw [List.flatMap_cons, List.foldr_append, ih, push_unitsOfChar, List.map_cons]

/-- Points that are all characters are the points of a list of characters. -/
theorem exists_chars_of_all_isChar {points : List Point} (all : points.all Point.isChar = true) :
    ∃ chars : List Char, points = chars.map .char := by
  induction points with
  | nil => exact ⟨[], rfl⟩
  | cons point rest ih =>
    rw [List.all_cons, Bool.and_eq_true] at all
    obtain ⟨chars, rfl⟩ := ih all.2
    cases point with
    | char c => exact ⟨c :: chars, rfl⟩
    | lone unit => cases all.1

/-- The well-formed texts are the texts of characters. -/
theorem isWellFormed_iff {text : Text} :
    text.isWellFormed = true ↔ ∃ chars, text = ofChars chars := by
  constructor
  · intro wellFormed
    obtain ⟨chars, pointsEq⟩ := exists_chars_of_all_isChar wellFormed
    refine ⟨chars, ?_⟩
    have units := flatMap_units_points text
    rw [pointsEq, List.flatMap_map] at units
    obtain ⟨own⟩ := text
    exact congrArg Text.mk units.symm
  · rintro ⟨chars, rfl⟩
    rw [isWellFormed, points_ofChars, List.all_map, List.all_eq_true]
    exact fun _ _ => rfl

/-! ## UTF-8 -/

@[simp] theorem toUtf8_ofChars (chars : List Char) :
    (ofChars chars).toUtf8 = chars.flatMap String.utf8EncodeChar := by
  rw [toUtf8, points_ofChars, List.flatMap_map]
  rfl

/-- A byte string as an array is the array of the same bytes. -/
theorem toByteArray_eq (bytes : Bytes) : bytes.toByteArray = ⟨bytes.toArray⟩ := by
  rw [ByteArray.ext_iff, List.data_toByteArray]

/-- The byte strings that are read as texts are the encodings of characters. -/
theorem ofUtf8?_eq_some_iff {bytes : Bytes} {text : Text} :
    ofUtf8? bytes = some text
      ↔ ∃ chars : List Char,
        bytes = chars.flatMap String.utf8EncodeChar ∧ text = ofChars chars := by
  rw [ofUtf8?, Option.map_eq_some_iff, ← toByteArray_eq]
  constructor
  · rintro ⟨string, read, rfl⟩
    rw [String.fromUTF8?] at read
    split at read
    · next valid =>
      cases read
      have same : ∃ chars, bytes.toByteArray = List.utf8Encode chars := by
        obtain ⟨chars, encoded⟩ := valid
        exact ⟨chars, encoded⟩
      obtain ⟨chars, encoded⟩ := same
      have string : String.fromUTF8 bytes.toByteArray valid = String.ofList chars :=
        String.toByteArray_inj.mp encoded
      refine ⟨chars, List.toByteArray_inj.mp encoded, ?_⟩
      rw [string, ofString, String.toList_ofList]
    · cases read
  · rintro ⟨chars, rfl, rfl⟩
    have valid : (chars.flatMap String.utf8EncodeChar).toByteArray.IsValidUTF8 := .intro chars rfl
    refine ⟨String.ofList chars, ?_, ?_⟩
    · rw [String.fromUTF8?, dif_pos valid]
      rfl
    · rw [ofString, String.toList_ofList]

/-- Reading the UTF-8 form of a well-formed text gives the text back. -/
theorem ofUtf8?_toUtf8 {text : Text} (wellFormed : text.isWellFormed = true) :
    ofUtf8? text.toUtf8 = some text := by
  obtain ⟨chars, rfl⟩ := isWellFormed_iff.mp wellFormed
  exact ofUtf8?_eq_some_iff.mpr ⟨chars, toUtf8_ofChars chars, rfl⟩

/-- What is read as a text is the UTF-8 form of that text, which is well formed. -/
theorem toUtf8_of_ofUtf8? {bytes : Bytes} {text : Text} (read : ofUtf8? bytes = some text) :
    text.isWellFormed = true ∧ text.toUtf8 = bytes := by
  obtain ⟨chars, rfl, rfl⟩ := ofUtf8?_eq_some_iff.mp read
  exact ⟨isWellFormed_iff.mpr ⟨chars, rfl⟩, toUtf8_ofChars chars⟩

/-! ## ASCII -/

/-- A character below U+0080 is one byte. -/
theorem utf8EncodeChar_of_lt {c : Char} (small : c.toNat < 0x80) :
    String.utf8EncodeChar c = [UInt8.ofNat c.toNat] := by
  rw [String.utf8EncodeChar]
  exact if_pos (Nat.le_of_lt_succ small)

/-- A first byte that marks a longer form is not ASCII. -/
theorem not_isAscii_cons {marker low : Nat} (large : 0x80 ≤ marker) (fits : low + marker < 0x100)
    (rest : Bytes) : Bytes.isAscii (UInt8.ofNat (low + marker) :: rest) = false := by
  have notLe : ¬ UInt8.ofNat (low + marker) ≤ 0x7f := by
    rw [UInt8.le_iff_toNat_le, UInt8.toNat_ofNat', Nat.mod_eq_of_lt fits]
    change ¬ low + marker ≤ 0x7f
    omega
  rw [Bytes.isAscii, List.all_cons, decide_eq_false notLe, Bool.false_and]

/-- Any other character has a byte that is not ASCII. -/
theorem lt_of_isAscii_utf8EncodeChar {c : Char}
    (ascii : Bytes.isAscii (String.utf8EncodeChar c) = true) : c.toNat < 0x80 := by
  rw [String.utf8EncodeChar] at ascii
  split at ascii
  · next small => exact Nat.lt_succ_of_le small
  · split at ascii
    · rw [not_isAscii_cons (by decide) (by omega)] at ascii
      cases ascii
    · split at ascii
      · rw [not_isAscii_cons (by decide) (by omega)] at ascii
        cases ascii
      · rw [not_isAscii_cons (by decide) (by omega)] at ascii
        cases ascii

/-- The character of a byte is one unit. -/
theorem unitsOfChar_ofNat (byte : UInt8) :
    unitsOfChar (Char.ofNat byte.toNat) = [byte.toUInt16] := by
  have bound := byte.toNat_lt
  have code : (Char.ofNat byte.toNat).toNat = byte.toNat := by
    refine toNat_ofNat_of_valid ?_
    rw [Nat.isValidChar]
    omega
  rw [unitsOfChar, code, if_pos (by omega), UInt16.ofNat_uInt8ToNat]

/-- The text whose units are given bytes is the text of the bytes' characters. -/
theorem ofChars_map_ofNat (bytes : Bytes) :
    ofChars (bytes.map fun byte => Char.ofNat byte.toNat) = ⟨bytes.map UInt8.toUInt16⟩ := by
  rw [ofChars, List.flatMap_map]
  simp only [unitsOfChar_ofNat, ← List.map_eq_flatMap]

/-- Bytes that are ASCII are the UTF-8 form of the text they are the units of. -/
theorem toUtf8_of_isAscii {bytes : Bytes} (ascii : bytes.isAscii = true) :
    (Text.mk (bytes.map UInt8.toUInt16)).toUtf8 = bytes := by
  rw [← ofChars_map_ofNat, toUtf8_ofChars, List.flatMap_map]
  induction bytes with
  | nil => rfl
  | cons byte rest ih =>
    rw [Bytes.isAscii, List.all_cons, Bool.and_eq_true, decide_eq_true_eq,
      UInt8.le_iff_toNat_le] at ascii
    have small : byte.toNat < 0x80 := Nat.lt_succ_of_le ascii.1
    have code : (Char.ofNat byte.toNat).toNat = byte.toNat := by
      refine toNat_ofNat_of_valid ?_
      rw [Nat.isValidChar]
      omega
    rw [List.flatMap_cons, ih ascii.2, utf8EncodeChar_of_lt (by omega), code, UInt8.ofNat_toNat]
    rfl

/-- The units of ASCII characters are their bytes. -/
theorem map_toUInt16_flatMap {chars : List Char}
    (ascii : Bytes.isAscii (chars.flatMap String.utf8EncodeChar) = true) :
    (chars.flatMap String.utf8EncodeChar).map UInt8.toUInt16 = chars.flatMap unitsOfChar := by
  induction chars with
  | nil => rfl
  | cons c rest ih =>
    rw [List.flatMap_cons, Bytes.isAscii, List.all_append, Bool.and_eq_true] at ascii
    have small := lt_of_isAscii_utf8EncodeChar ascii.1
    have unit : (UInt8.ofNat c.toNat).toUInt16 = UInt16.ofNat c.toNat := by
      rw [← UInt16.toNat_inj, UInt8.toNat_toUInt16, UInt8.toNat_ofNat', UInt16.toNat_ofNat']
      omega
    rw [List.flatMap_cons, List.flatMap_cons, List.map_append, ih ascii.2,
      utf8EncodeChar_of_lt small, unitsOfChar, if_pos (by omega), List.map_singleton, unit]

/-- A text whose UTF-8 form is ASCII has a unit for each byte of that form. -/
theorem eq_of_isAscii_toUtf8 {text : Text} (ascii : text.toUtf8.isAscii = true) :
    text = ⟨text.toUtf8.map UInt8.toUInt16⟩ := by
  have wellFormed : text.isWellFormed = true := by
    rw [isWellFormed, List.all_eq_true]
    intro point member
    cases point with
    | char c => rfl
    | lone unit =>
      have inside : (0xef : UInt8) ∈ text.toUtf8 :=
        List.mem_flatMap.mpr ⟨.lone unit, member, List.mem_cons_self⟩
      exact absurd (List.all_eq_true.mp ascii _ inside) (by decide)
  obtain ⟨chars, rfl⟩ := isWellFormed_iff.mp wellFormed
  rw [toUtf8_ofChars] at ascii ⊢
  rw [map_toUInt16_flatMap ascii, ofChars]

end Text

end PeerWire
