import Mathlib.Algebra.GroupWithZero.Nat
import PeerWire.Proofs.FormatLaws

/-!
# Formats and their leaves

Pairs and records are put together from other formats, and what is at the ends of that, from
left to right, are the leaves. How they are bracketed, and what the fields are called, has no
part in what is written and read, as long as no field has the name of the prototype.

Writing a value is writing its leaf values in turn (`Format.encode_eq_all`), and reading one is
reading the leaves in turn, up to the first that fails (`Format.readInTurn_leaves`). So formats
with the same leaves write and read the same (`Format.same_wire_of_leaves`). What a value is put
together from may be listed in any order (`Fields.assemble_of_perm`).

Sizes are the exception. They are sums of numbers, which are rounded as they are formed, so that
the brackets show in a sum beyond `2 ^ 53` (`Format.same_leaves_apart`). Below that a size is
the sum of the sizes of the leaves (`Format.capped_elementSize`).
-/

set_option autoImplicit false

attribute [local instance (high)] instPowNat

namespace PeerWire

/-! ## Leaves -/

/-- Whether a format is neither a pair nor a record. -/
def Format.isLeaf : Format → Bool
  | .pair .. | .record .. => false
  | _ => true

mutual

/-- The leaves of a format, in the order of the wire. -/
def Format.leaves : Format → List Format
  | .pair first second => first.leaves ++ second.leaves
  | .record fields => fields.leaves
  | leaf => [leaf]

/-- The leaves of a record's fields. -/
def Fields.leaves : Fields → List Format
  | .nil => []
  | .cons _ format rest => format.leaves ++ rest.leaves

end

/-- A leaf with a value of it. -/
abbrev LeafValue : Type :=
  (leaf : Format) × leaf.Val

/-- The value that is held, unless it has been lost. -/
def Held.value? {α : Type} {objects : Bool} : Held objects α → Option α
  | .own value => some value
  | .inherited value _ => some value
  | .lost _ => none

mutual

/-- The leaves of a format with what a value holds for each. -/
def Format.leafValues : (format : Format) → format.Val → List LeafValue
  | .pair first second, value => first.leafValues value.1 ++ second.leafValues value.2
  | .record fields, value => fields.leafValues value
  | leaf, value => [⟨leaf, value⟩]

/-- The leaves of a record's fields with what a value holds for each. Where nothing is held,
there are no leaf values. -/
def Fields.leafValues : (fields : Fields) → fields.Val → List LeafValue
  | .nil, _ => []
  | .cons (.ordinary ..) format rest, value => format.leafValues value.1 ++ rest.leafValues value.2
  | .cons .prototype format rest, value =>
    (value.1.value?.map format.leafValues).getD [] ++ rest.leafValues value.2

end

/-- What is to be shown for a property of formats, and one of fields beside it: it holds of
leaves, and is kept by what formats are put together with. -/
structure LeafInduction (motive : Format → Prop) (motiveFields : Fields → Prop) : Prop where
  leaf : ∀ format : Format, format.isLeaf = true → motive format
  pair : ∀ first second, motive first → motive second → motive (.pair first second)
  record : ∀ fields, motiveFields fields → motive (.record fields)
  nil : motiveFields .nil
  cons : ∀ name format rest, motive format → motiveFields rest →
    motiveFields (.cons name format rest)

section Induction

variable {motive : Format → Prop} {motiveFields : Fields → Prop}

mutual

theorem LeafInduction.format (shown : LeafInduction motive motiveFields) : ∀ format, motive format
  | .pair first second => shown.pair first second (shown.format first) (shown.format second)
  | .record fields => shown.record fields (shown.fields fields)
  | .u8 | .u16 | .u32 | .u64 | .i8 | .i16 | .i32 | .i64 | .u16Network | .truth _ | .varInt
  | .fixedBytes _ | .varBytes | .varString | .commandString | .checkedData | .network
  | .serviceFlags | .inventoryType | .rejectReason | .address | .inventory | .inventoryList
  | .versionMessage | .reject | .rawMessage | .broken .. | .vector _ => shown.leaf _ rfl

theorem LeafInduction.fields (shown : LeafInduction motive motiveFields) :
    ∀ fields, motiveFields fields
  | .nil => shown.nil
  | .cons name format rest => shown.cons name format rest (shown.format format) (shown.fields rest)

end

end Induction

/-- The same for formats without a field with the name of the prototype, where nothing is to
be shown for such a field. -/
structure OrdinaryInduction (motive : Format → Prop) (motiveFields : Fields → Prop) : Prop where
  leaf : ∀ format : Format, format.isLeaf = true → motive format
  pair : ∀ first second, motive first → motive second → motive (.pair first second)
  record : ∀ fields, motiveFields fields → motive (.record fields)
  nil : motiveFields .nil
  cons : ∀ text apart format rest, motive format → motiveFields rest →
    motiveFields (.cons (.ordinary text apart) format rest)

section OrdinaryInduction

variable {motive : Format → Prop} {motiveFields : Fields → Prop}

theorem OrdinaryInduction.leafInduction (shown : OrdinaryInduction motive motiveFields) :
    LeafInduction (fun format => format.isOrdinary = true → motive format)
      (fun fields => fields.isOrdinary = true → motiveFields fields) where
  leaf format isLeaf _ := shown.leaf format isLeaf
  pair first second ihFirst ihSecond ordinary := by
    obtain ⟨ofFirst, ofSecond⟩ := Bool.and_eq_true_iff.mp ordinary
    exact shown.pair first second (ihFirst ofFirst) (ihSecond ofSecond)
  record fields ih ordinary := shown.record fields (ih ordinary)
  nil _ := shown.nil
  cons name format rest ihFormat ihRest ordinary := by
    cases name with
    | prototype => cases ordinary
    | ordinary text apart =>
      obtain ⟨ofFormat, ofRest⟩ := Bool.and_eq_true_iff.mp ordinary
      exact shown.cons text apart format rest (ihFormat ofFormat) (ihRest ofRest)

theorem OrdinaryInduction.format (shown : OrdinaryInduction motive motiveFields) {format : Format}
    (ordinary : format.isOrdinary = true) : motive format :=
  shown.leafInduction.format format ordinary

end OrdinaryInduction

theorem Format.leaves_of_isLeaf {format : Format} (isLeaf : format.isLeaf = true) :
    format.leaves = [format] := by
  cases format with
  | pair first second => cases isLeaf
  | record fields => cases isLeaf
  | _ => rfl

theorem Format.leafValues_of_isLeaf {format : Format} (isLeaf : format.isLeaf = true)
    (value : format.Val) : format.leafValues value = [⟨format, value⟩] := by
  cases format with
  | pair first second => cases isLeaf
  | record fields => cases isLeaf
  | _ => rfl

/-- What a value holds belongs to the leaves, one after the other. -/
theorem Format.map_fst_leafValues {format : Format} (ordinary : format.isOrdinary = true)
    (value : format.Val) : (format.leafValues value).map Sigma.fst = format.leaves := by
  have shown : OrdinaryInduction
      (fun format => ∀ value : format.Val, (format.leafValues value).map Sigma.fst = format.leaves)
      (fun fields => ∀ value : fields.Val,
        (fields.leafValues value).map Sigma.fst = fields.leaves) := by
    constructor
    case leaf =>
      intro format isLeaf value
      rw [leafValues_of_isLeaf isLeaf, leaves_of_isLeaf isLeaf]
      rfl
    case pair =>
      intro first second ihFirst ihSecond value
      rw [leafValues, leaves, List.map_append, ihFirst, ihSecond]
    case record => exact fun fields ih value => ih value
    case nil => exact fun value => rfl
    case cons =>
      intro text apart format rest ihFormat ihRest value
      rw [Fields.leafValues, Fields.leaves, List.map_append, ihFormat, ihRest]
  exact shown.format ordinary value

/-- Any values for the leaves are what some value holds. -/
theorem Format.exists_leafValues {format : Format} (ordinary : format.isOrdinary = true)
    {values : List LeafValue} (belong : values.map Sigma.fst = format.leaves) :
    ∃ value : format.Val, format.leafValues value = values := by
  have shown : OrdinaryInduction
      (fun format => ∀ values : List LeafValue, values.map Sigma.fst = format.leaves →
        ∃ value : format.Val, format.leafValues value = values)
      (fun fields => ∀ values : List LeafValue, values.map Sigma.fst = fields.leaves →
        ∃ value : fields.Val, fields.leafValues value = values) := by
    constructor
    case leaf =>
      intro format isLeaf values belong
      rw [leaves_of_isLeaf isLeaf, List.map_eq_singleton_iff] at belong
      obtain ⟨⟨leaf, value⟩, rfl, rfl⟩ := belong
      exact ⟨value, leafValues_of_isLeaf isLeaf value⟩
    case pair =>
      intro first second ihFirst ihSecond values belong
      obtain ⟨front, back, rfl, ofFirst, ofSecond⟩ := List.map_eq_append_iff.mp belong
      obtain ⟨a, rfl⟩ := ihFirst front ofFirst
      obtain ⟨b, rfl⟩ := ihSecond back ofSecond
      exact ⟨(a, b), rfl⟩
    case record => exact fun fields ih values belong => ih values belong
    case nil =>
      intro values belong
      exact ⟨(), (List.map_eq_nil_iff.mp belong).symm⟩
    case cons =>
      intro text apart format rest ihFormat ihRest values belong
      obtain ⟨front, back, rfl, ofFormat, ofRest⟩ := List.map_eq_append_iff.mp belong
      obtain ⟨a, rfl⟩ := ihFormat front ofFormat
      obtain ⟨b, rfl⟩ := ihRest back ofRest
      exact ⟨(a, b), rfl⟩
  exact shown.format ordinary values belong

/-- Values that hold the same for every leaf are equal. -/
theorem Format.leafValues_injective {format : Format} (ordinary : format.isOrdinary = true)
    {value other : format.Val} (same : format.leafValues value = format.leafValues other) :
    value = other := by
  -- Along with it, that all values hold as much, so that equal lists can be cut apart.
  have shown : OrdinaryInduction
      (fun format => ∀ value other : format.Val,
        (format.leafValues value).length = (format.leafValues other).length
          ∧ (format.leafValues value = format.leafValues other → value = other))
      (fun fields => ∀ value other : fields.Val,
        (fields.leafValues value).length = (fields.leafValues other).length
          ∧ (fields.leafValues value = fields.leafValues other → value = other)) := by
    constructor
    case leaf =>
      intro format isLeaf value other
      rw [leafValues_of_isLeaf isLeaf, leafValues_of_isLeaf isLeaf]
      refine ⟨rfl, fun same => ?_⟩
      cases same
      rfl
    case pair =>
      rintro first second ihFirst ihSecond ⟨a, b⟩ ⟨c, d⟩
      obtain ⟨firstLength, firstEqual⟩ := ihFirst a c
      obtain ⟨secondLength, secondEqual⟩ := ihSecond b d
      refine ⟨?_, fun same => ?_⟩
      · rw [leafValues, leafValues, List.length_append, List.length_append, firstLength,
          secondLength]
      · obtain ⟨front, back⟩ := List.append_inj same firstLength
        rw [firstEqual front, secondEqual back]
    case record => exact fun fields ih value other => ih value other
    case nil => exact fun value other => ⟨rfl, fun same => rfl⟩
    case cons =>
      rintro text apart format rest ihFormat ihRest ⟨a, b⟩ ⟨c, d⟩
      obtain ⟨headLength, headEqual⟩ := ihFormat a c
      obtain ⟨restLength, restEqual⟩ := ihRest b d
      refine ⟨?_, fun same => ?_⟩
      · rw [Fields.leafValues, Fields.leafValues, List.length_append, List.length_append,
          headLength, restLength]
      · obtain ⟨front, back⟩ := List.append_inj same headLength
        rw [headEqual front, restEqual back]
  exact (shown.format ordinary value other).2 same

/-! ## Writing -/

namespace Emission

theorem all_append (first second : List Emission) :
    all (first ++ second) = (all first).andThen (all second) := by
  induction first with
  | nil => exact (nothing_andThen (all second)).symm
  | cons emission rest ih => rw [List.cons_append, all_cons, all_cons, ih, andThen_assoc]

/-- Bytes written in front of an emission stand in front of what it comes to. -/
theorem toExcept_andThen_of_ok {first : Emission} {front : Bytes}
    (written : first.toExcept = .ok front) (second : Emission) :
    (first.andThen second).toExcept = second.toExcept.map (front ++ ·) := by
  obtain ⟨chunks, outcome⟩ := first
  cases outcome with
  | error fault => cases written
  | ok count =>
    cases written
    obtain ⟨others, behind⟩ := second
    cases behind with
    | error fault => rfl
    | ok more => simp only [ok_andThen, toExcept, Emission.bytes, List.flatten_append, Except.map]

theorem toExcept_andThen_of_error {first : Emission} {fault : Fault}
    (failed : first.toExcept = .error fault) (second : Emission) :
    (first.andThen second).toExcept = .error fault := by
  obtain ⟨chunks, outcome⟩ := first
  cases outcome with
  | error met => exact failed
  | ok count => cases failed

/-- Emissions in order come to their bytes in order, or to the first fault. -/
theorem toExcept_all (emissions : List Emission) :
    (all emissions).toExcept = (emissions.mapM toExcept).map List.flatten := by
  induction emissions with
  | nil => rfl
  | cons emission rest ih =>
    rw [all_cons, List.mapM_cons]
    cases written : emission.toExcept with
    | error fault => exact toExcept_andThen_of_error written _
    | ok front =>
      rw [toExcept_andThen_of_ok written, ih]
      cases rest.mapM toExcept <;> rfl

end Emission

namespace LeafValue

/-- What writing a leaf value comes to. -/
def encode (entry : LeafValue) : Emission :=
  entry.1.codec.encode entry.2

/-- The bytes of a leaf value. -/
def serialize (entry : LeafValue) : Except Fault Bytes :=
  entry.1.codec.serialize entry.2

end LeafValue

namespace Format

/-- Writing a value is writing its leaf values in turn. -/
theorem encode_eq_all {format : Format} (ordinary : format.isOrdinary = true)
    (value : format.Val) :
    format.codec.encode value = .all ((format.leafValues value).map LeafValue.encode) := by
  have shown : OrdinaryInduction
      (fun format => ∀ value : format.Val,
        format.codec.encode value = .all ((format.leafValues value).map LeafValue.encode))
      (fun fields => ∀ (earlier : Size) (value : fields.Val),
        (fields.codecBehind earlier).encode value
          = .all ((fields.leafValues value).map LeafValue.encode)) := by
    constructor
    case leaf =>
      intro format isLeaf value
      rw [leafValues_of_isLeaf isLeaf, List.map_singleton, Emission.all_cons, Emission.all_nil,
        Emission.andThen_nothing, LeafValue.encode]
    case pair =>
      intro first second ihFirst ihSecond value
      rw [leafValues, List.map_append, Emission.all_append, ← ihFirst, ← ihSecond]
      rfl
    case record => exact fun fields ih value => ih (.finite 0) value
    case nil => exact fun earlier value => rfl
    case cons =>
      intro text apart format rest ihFormat ihRest earlier value
      rw [Fields.leafValues, List.map_append, Emission.all_append, ← ihFormat,
        ← ihRest (earlier + format.codec.elementSize)]
      rfl
  exact shown.format ordinary value

/-- The bytes of a value are those of its leaf values, one after the other. -/
theorem serialize_eq_flatten {format : Format} (ordinary : format.isOrdinary = true)
    (value : format.Val) :
    format.codec.serialize value
      = ((format.leafValues value).mapM LeafValue.serialize).map List.flatten := by
  rw [Codec.serialize, encode_eq_all ordinary, Emission.toExcept_all, List.mapM_map]
  rfl

end Format

/-! ## Reading -/

section Reading

variable {σ : Type} [ByteSource σ]

/-- One decoder behind another runs over the reader that the first one left. -/
theorem Decoder.run_bind {α β : Type} (decoder : Decoder α) (next : α → Decoder β)
    (reader : Reader σ) :
    (decoder.bind next).run reader
      = match decoder.run reader with
        | (.ok value, after) => (next value).run after
        | (.error failure, after) => (.error failure, after) := by
  induction decoder generalizing reader with
  | done value => rfl
  | fail failure => rfl
  | take count rest ih =>
    rw [bind, run, run]
    rcases reader.readBytes count with ⟨outcome, after⟩
    cases outcome with
    | error error => rfl
    | ok bytes => exact ih bytes after
  | reserve count size rest ih => exact ih reader

/-- Reads leaves one after the other, up to the first that fails. -/
def readInTurn : List Format → Reader σ → Except Failure (List LeafValue) × Reader σ
  | [], reader => (.ok [], reader)
  | leaf :: rest, reader =>
    match leaf.codec.decode.run reader with
    | (.error failure, after) => (.error failure, after)
    | (.ok value, after) =>
      let (others, behind) := readInTurn rest after
      (others.map (⟨leaf, value⟩ :: ·), behind)

theorem readInTurn_append (first second : List Format) (reader : Reader σ) :
    readInTurn (first ++ second) reader
      = match readInTurn first reader with
        | (.error failure, after) => (.error failure, after)
        | (.ok values, after) =>
          let (others, behind) := readInTurn second after
          (others.map (values ++ ·), behind) := by
  induction first generalizing reader with
  | nil =>
    rcases read : readInTurn second reader with ⟨outcome, behind⟩
    cases outcome <;> simp [readInTurn, read, Except.map]
  | cons leaf rest ih =>
    rw [List.cons_append, readInTurn, readInTurn]
    rcases leaf.codec.decode.run reader with ⟨outcome, after⟩
    cases outcome with
    | error failure => rfl
    | ok value =>
      dsimp only
      rw [ih]
      rcases readInTurn rest after with ⟨outcome, behind⟩
      cases outcome with
      | error failure => rfl
      | ok values =>
        dsimp only [Except.map]
        rcases readInTurn second behind with ⟨outcome, last⟩
        cases outcome <;> rfl

/-- What reading one format behind another comes to, given what each comes to in leaf values. -/
theorem run_pair_eq {α β : Type} {first : Decoder α} {second : Decoder β}
    {firstLeaves secondLeaves : List Format} {firstValues : α → List LeafValue}
    {secondValues : β → List LeafValue}
    (readsFirst : ∀ reader : Reader σ,
      readInTurn firstLeaves reader
        = ((first.run reader).1.map firstValues, (first.run reader).2))
    (readsSecond : ∀ reader : Reader σ,
      readInTurn secondLeaves reader
        = ((second.run reader).1.map secondValues, (second.run reader).2))
    (reader : Reader σ) :
    let both := (first.bind fun a => second.bind fun b => .done (a, b)).run reader
    readInTurn (firstLeaves ++ secondLeaves) reader
      = (both.1.map fun value => firstValues value.1 ++ secondValues value.2, both.2) := by
  dsimp only
  rw [readInTurn_append, readsFirst, Decoder.run_bind]
  rcases first.run reader with ⟨outcome, after⟩
  cases outcome with
  | error failure => rfl
  | ok a =>
    dsimp only [Except.map]
    rw [readsSecond, Decoder.run_bind]
    rcases second.run after with ⟨outcome, behind⟩
    cases outcome <;> rfl

/-- Reading a format is reading its leaves in turn. -/
theorem Format.readInTurn_leaves {format : Format} (ordinary : format.isOrdinary = true)
    (reader : Reader σ) :
    readInTurn format.leaves reader
      = ((format.codec.decode.run reader).1.map format.leafValues,
          (format.codec.decode.run reader).2) := by
  have shown : OrdinaryInduction
      (fun format => ∀ reader : Reader σ, readInTurn format.leaves reader
        = ((format.codec.decode.run reader).1.map format.leafValues,
            (format.codec.decode.run reader).2))
      (fun fields => ∀ (earlier : Size) (reader : Reader σ), readInTurn fields.leaves reader
        = (((fields.codecBehind earlier).decode.run reader).1.map fields.leafValues,
            ((fields.codecBehind earlier).decode.run reader).2)) := by
    constructor
    case leaf =>
      intro format isLeaf reader
      rw [leaves_of_isLeaf isLeaf, readInTurn]
      rcases format.codec.decode.run reader with ⟨outcome, after⟩
      cases outcome with
      | error failure => rfl
      | ok value =>
        dsimp only [readInTurn, Except.map]
        rw [leafValues_of_isLeaf isLeaf]
    case pair => exact fun first second ihFirst ihSecond => run_pair_eq ihFirst ihSecond
    case record => exact fun fields ih => ih (.finite 0)
    case nil => exact fun earlier reader => rfl
    case cons =>
      exact fun text apart format rest ihFormat ihRest earlier =>
        run_pair_eq ihFormat (ihRest (earlier + format.codec.elementSize))
  exact shown.format ordinary reader

end Reading

/-- Over a byte string the leaf values of what is read, and how many bytes were taken, are those
of the leaves read in turn. -/
theorem Format.deserializePartial_eq_readInTurn {format : Format}
    (ordinary : format.isOrdinary = true) (bytes : Bytes) :
    (format.codec.decode.deserializePartial bytes).map
        (fun read => (format.leafValues read.value, read.consumed))
      = match readInTurn format.leaves (.ofSource (Cursor.ofBytes bytes)) with
        | (.ok values, after) => .ok (values, after.consumed)
        | (.error failure, _) => .error failure := by
  rw [readInTurn_leaves ordinary, Decoder.deserializePartial]
  rcases format.codec.decode.run (Reader.ofSource (Cursor.ofBytes bytes)) with ⟨outcome, after⟩
  cases outcome <;> rfl

/-! ## Sizes -/

namespace Number

/-- Rounding does not take a number below `2 ^ 53` from above it. -/
theorem le_roundNat {value : Nat} (large : 2 ^ (53 : Nat) ≤ value) :
    2 ^ (53 : Nat) ≤ roundNat value := by
  have positive : value ≠ 0 := by omega
  have exponent : 53 ≤ value.log2 := (Nat.le_log2 positive).mpr large
  have split : 2 ^ value.log2 = 2 ^ (52 : Nat) * 2 ^ (value.log2 - 52) := by
    rw [← Nat.pow_add]
    congr 1
    omega
  have power : 2 ^ (53 : Nat) ≤ 2 ^ value.log2 := Nat.pow_le_pow_right (by decide) exponent
  have significand : 2 ^ (52 : Nat) ≤ value / 2 ^ (value.log2 - 52) := by
    rw [Nat.le_div_iff_mul_le (Nat.two_pow_pos _), ← split]
    exact Nat.log2_self_le positive
  have kept : 2 ^ value.log2 ≤ value / 2 ^ (value.log2 - 52) * 2 ^ (value.log2 - 52) := by
    rw [split]
    exact Nat.mul_le_mul_right _ significand
  have next : value / 2 ^ (value.log2 - 52) * 2 ^ (value.log2 - 52)
      ≤ (value / 2 ^ (value.log2 - 52) + 1) * 2 ^ (value.log2 - 52) :=
    Nat.mul_le_mul_right _ (Nat.le_succ _)
  dsimp only [roundNat]
  split <;> omega

/-- Rounding changes nothing up to `2 ^ 53`. -/
theorem min_roundNat (value : Nat) :
    min (roundNat value) (2 ^ (53 : Nat)) = min value (2 ^ (53 : Nat)) := by
  rcases Nat.le_total value (2 ^ (53 : Nat)) with small | large
  · rw [roundNat_of_le small]
  · rw [Nat.min_eq_right (le_roundNat large), Nat.min_eq_right large]

end Number

namespace Size

/-- A size up to `2 ^ 53`, where sums begin to be rounded. -/
def capped : Size → Nat
  | .finite bytes => min bytes (2 ^ (53 : Nat))
  | .infinite => 2 ^ (53 : Nat)

/-- Sizes from `2 ^ 53` on may be those of other numbers of bytes. -/
def IsLarge : Size → Prop
  | .finite bytes => 2 ^ (53 : Nat) ≤ bytes
  | .infinite => True

instance (size : Size) : Decidable size.IsLarge :=
  match size with
  | .finite bytes => inferInstanceAs (Decidable (2 ^ (53 : Nat) ≤ bytes))
  | .infinite => .isTrue trivial

theorem capped_nearest (bytes : Nat) : (nearest bytes).capped = min bytes (2 ^ (53 : Nat)) := by
  rcases Nat.le_total bytes (2 ^ (53 : Nat)) with small | large
  · rw [nearest_of_le small, capped]
  · unfold nearest
    dsimp only
    split
    · exact Number.min_roundNat bytes
    · exact (Nat.min_eq_right large).symm

/-- Sizes that are exact up to `2 ^ 53` have a sum that is. -/
theorem capped_add {first second : Size} {exactFirst exactSecond : Nat}
    (isFirst : first.capped = min exactFirst (2 ^ (53 : Nat)))
    (isSecond : second.capped = min exactSecond (2 ^ (53 : Nat))) :
    (first + second).capped = min (exactFirst + exactSecond) (2 ^ (53 : Nat)) := by
  cases first with
  | infinite =>
    rw [capped] at isFirst
    rw [infinite_add, capped]
    omega
  | finite front =>
    cases second with
    | infinite =>
      rw [capped] at isSecond
      rw [add_infinite, capped]
      omega
    | finite back =>
      rw [capped] at isFirst isSecond
      rw [finite_add_finite, capped_nearest]
      omega

/-- Sizes that are the same up to `2 ^ 53` are equal, or both beyond. -/
theorem eq_or_isLarge_of_capped_eq {first second : Size} (same : first.capped = second.capped) :
    first = second ∨ first.IsLarge ∧ second.IsLarge := by
  cases first with
  | infinite =>
    cases second with
    | infinite => exact .inl rfl
    | finite back =>
      rw [capped, capped] at same
      exact .inr ⟨trivial, show 2 ^ (53 : Nat) ≤ back by omega⟩
  | finite front =>
    cases second with
    | infinite =>
      rw [capped, capped] at same
      exact .inr ⟨show 2 ^ (53 : Nat) ≤ front by omega, trivial⟩
    | finite back =>
      rw [capped, capped] at same
      rcases Nat.lt_or_ge front (2 ^ (53 : Nat)) with small | large
      · exact .inl (congrArg finite (by omega))
      · exact .inr ⟨large, show 2 ^ (53 : Nat) ≤ back by omega⟩

end Size

namespace Format

/-- The sizes of leaves together, as a natural number. -/
def sizeOfLeaves (leaves : List Format) : Nat :=
  (leaves.map fun leaf => leaf.codec.elementSize.toNat).sum

/-- The size of a leaf is a number of bytes. -/
theorem isFinite_of_isLeaf {leaf : Format} (isLeaf : leaf.isLeaf = true) :
    leaf.codec.elementSize.IsFinite := by
  cases leaf with
  | pair first second => cases isLeaf
  | record fields => cases isLeaf
  | truth inverted => cases inverted <;> trivial
  | address => decide +kernel
  | inventory => decide +kernel
  | versionMessage => decide +kernel
  | reject => decide +kernel
  | rawMessage => decide +kernel
  | _ => trivial

theorem sizeOfLeaves_append (first second : List Format) :
    sizeOfLeaves (first ++ second) = sizeOfLeaves first + sizeOfLeaves second := by
  rw [sizeOfLeaves, List.map_append, List.sum_append]
  rfl

/-- Up to `2 ^ 53` the size of a format is that of its leaves together. -/
theorem capped_elementSize (format : Format) :
    format.codec.elementSize.capped = min (sizeOfLeaves format.leaves) (2 ^ (53 : Nat)) := by
  have shown : LeafInduction
      (fun format => format.codec.elementSize.capped
        = min (sizeOfLeaves format.leaves) (2 ^ (53 : Nat)))
      (fun fields => ∀ (earlier : Size) (exact : Nat),
        earlier.capped = min exact (2 ^ (53 : Nat)) →
          (fields.codecBehind earlier).elementSize.capped
            = min (exact + sizeOfLeaves fields.leaves) (2 ^ (53 : Nat))) := by
    constructor
    case leaf =>
      intro format isLeaf
      rw [leaves_of_isLeaf isLeaf, (isFinite_of_isLeaf isLeaf).eq_toNat]
      rfl
    case pair =>
      intro first second ihFirst ihSecond
      rw [leaves, sizeOfLeaves_append]
      exact Size.capped_add ihFirst ihSecond
    case record =>
      intro fields ih
      have total := ih (.finite 0) 0 rfl
      rw [Nat.zero_add] at total
      exact total
    case nil => exact fun earlier exact same => same
    case cons =>
      intro name format rest ihFormat ihRest earlier exact same
      rw [Fields.leaves, sizeOfLeaves_append, ← Nat.add_assoc]
      exact ihRest _ _ (Size.capped_add same ihFormat)
  exact shown.format format

end Format

/-! ## Entries -/

/-- Entries in any order, one for each field, make up the value they came from. -/
theorem Fields.assemble_of_perm (fields : Fields) {value : fields.Val} {given : List fields.Entry}
    (listed : given.Perm (fields.entries value)) : fields.assemble given = some value := by
  match fields, value with
  | .nil, _ => rfl
  | .cons name format rest, (value, others) =>
    have first := listed.filterMap Sum.getLeft?
    have behind := listed.filterMap Sum.getRight?
    have only : ((cons name format rest).entries (value, others)).filterMap Sum.getLeft?
        = [value] := by
      simp [entries, List.filterMap_map, Function.comp_def]
    have remaining : ((cons name format rest).entries (value, others)).filterMap Sum.getRight?
        = rest.entries others :=
      filterMap_getRight?_map_inr (rest.entries others)
    rw [only, List.perm_singleton] at first
    rw [remaining] at behind
    rw [assemble, first, assemble_of_perm rest behind]
    rfl

/-! ## Brackets -/

namespace Format

/-- Formats with the same leaves have the same values, in that each value of one corresponds to
the value of the other that holds the same for every leaf. What is written of the two is the
same, and its bytes are those of the leaf values one after the other; a record may be put
together from its entries in any order. Over every source, both are read as their leaves are in
turn: the same leaf values come of it, or the failure of the first leaf that fails, and the
reader has come as far. Over a byte string as many bytes are counted. Their sizes are equal, or
have both come to the numbers that are rounded. The records keep what is assigned to them. -/
theorem same_wire_of_leaves (first second : Format) (firstOrdinary : first.isOrdinary = true)
    (secondOrdinary : second.isOrdinary = true) (same : first.leaves = second.leaves) :
    (∀ value : first.Val, ∃ other : second.Val,
        second.leafValues other = first.leafValues value
          ∧ ∀ another, second.leafValues another = first.leafValues value → another = other)
      ∧ (∀ (value : first.Val) (other : second.Val),
          first.leafValues value = second.leafValues other →
            first.codec.encode value = second.codec.encode other
              ∧ first.codec.serialize value = second.codec.serialize other
              ∧ first.codec.serialize value
                = ((first.leafValues value).mapM LeafValue.serialize).map List.flatten)
      ∧ (∀ (fields : Fields) (value : fields.Val) (given : List fields.Entry),
          fields.isOrdinary = true → given.Perm (fields.entries value) →
            (fields.assemble given).map (record fields).codec.serialize
              = some (((fields.leafValues value).mapM LeafValue.serialize).map List.flatten))
      ∧ (first.codec.elementSize = second.codec.elementSize
          ∨ first.codec.elementSize.IsLarge ∧ second.codec.elementSize.IsLarge)
      ∧ (∀ (σ : Type) [ByteSource σ] (reader : Reader σ),
          ((first.codec.decode.run reader).1.map first.leafValues,
              (first.codec.decode.run reader).2) = readInTurn first.leaves reader
            ∧ ((second.codec.decode.run reader).1.map second.leafValues,
              (second.codec.decode.run reader).2) = readInTurn first.leaves reader)
      ∧ ∀ bytes : Bytes,
          (first.codec.decode.deserializePartial bytes).map
              (fun read => (first.leafValues read.value, read.consumed))
            = (second.codec.decode.deserializePartial bytes).map
              (fun read => (second.leafValues read.value, read.consumed)) := by
  refine ⟨?_, ?_, ?_, ?_, ?_, ?_⟩
  · intro value
    have belong := map_fst_leafValues firstOrdinary value
    rw [same] at belong
    obtain ⟨other, corresponds⟩ := exists_leafValues secondOrdinary belong
    refine ⟨other, corresponds, fun another alike => ?_⟩
    exact leafValues_injective secondOrdinary (alike.trans corresponds.symm)
  · intro value other corresponds
    have emissions : first.codec.encode value = second.codec.encode other := by
      rw [encode_eq_all firstOrdinary, encode_eq_all secondOrdinary, corresponds]
    exact ⟨emissions, congrArg Emission.toExcept emissions,
      serialize_eq_flatten firstOrdinary value⟩
  · intro fields value given ordinary listed
    have whole : (record fields).isOrdinary = true := ordinary
    rw [fields.assemble_of_perm listed]
    exact congrArg some (serialize_eq_flatten whole value)
  · have firstSize := first.capped_elementSize
    rw [same, ← second.capped_elementSize] at firstSize
    exact Size.eq_or_isLarge_of_capped_eq firstSize
  · intro σ _ reader
    refine ⟨(readInTurn_leaves firstOrdinary reader).symm, ?_⟩
    rw [same]
    exact (readInTurn_leaves secondOrdinary reader).symm
  · intro bytes
    rw [deserializePartial_eq_readInTurn firstOrdinary,
      deserializePartial_eq_readInTurn secondOrdinary, same]

/-- A byte and a text together, and a number behind them. -/
def tagged : Format :=
  .pair (.record (.cons (.ordinary "tag" (by decide)) .u8
    (.cons (.ordinary "word" (by decide)) .varString .nil))) .u16

/-- A byte, and behind it a text and a number together. -/
def tagging : Fields :=
  .cons (.ordinary "tag" (by decide)) .u8
    (.cons (.ordinary "labelled" (by decide)) (.pair .varString .u16) .nil)

/-- The same byte, text and number in two brackets, listed from behind in one of them; and the
end of the input within the number. -/
theorem same_wire_of_leaves_tagged :
    tagged.codec.serialize ((7, ⟨[0x61]⟩, ()), 0x0302) = .ok [7, 1, 0x61, 2, 3]
      ∧ (tagging.assemble [.inr (.inl (⟨[0x61]⟩, 0x0302)), .inl 7]).map
            (record tagging).codec.serialize
          = some (.ok [7, 1, 0x61, 2, 3])
      ∧ tagged.codec.elementSize = (record tagging).codec.elementSize
      ∧ (tagged.codec.decode.deserializePartial [7, 1, 0x61, 2]).map
            (fun read => (tagged.leafValues read.value, read.consumed))
          = .error (.consensus (.io (.exhausted 2 1))) := by
  obtain ⟨-, writes, lists, sizes, -, reads⟩ :=
    same_wire_of_leaves tagged (record tagging) rfl rfl rfl
  have wrote : (record tagging).codec.serialize (7, (⟨[0x61]⟩, 0x0302), ())
      = .ok [7, 1, 0x61, 2, 3] := rfl
  have ended : (record tagging).codec.decode.deserializePartial [7, 1, 0x61, 2]
      = .error (.consensus (.io (.exhausted 2 1))) := by
    rw [Decoder.deserializePartial_eq]
    rfl
  refine ⟨?_, ?_, ?_, ?_⟩
  · exact (writes _ (7, (⟨[0x61]⟩, 0x0302), ()) rfl).2.1.trans wrote
  · exact lists tagging (7, (⟨[0x61]⟩, 0x0302), ()) _ rfl (List.Perm.swap _ _ _)
  · exact sizes.resolve_right (by decide +kernel)
  · rw [reads, ended]
    rfl

/-- Two bytes, the first of them under the name of the prototype. -/
def halfMasked : Format :=
  .record (.cons .prototype .u8 (.cons (.ordinary "second" (by decide)) .u8 .nil))

/-- Where formats with the same leaves differ. Brackets show in a size beyond `2 ^ 53`: behind
so many bytes one and one more are lost one by one, and count together. And a name shows in
what is read: of two bytes the one under the name of the prototype is lost. -/
theorem same_leaves_apart :
    ((pair (pair (tower 50) u8) u8).leaves = (pair (tower 50) (pair u8 u8)).leaves
        ∧ (pair (pair (tower 50) u8) u8).codec.elementSize = .finite 9007199254740992
        ∧ (pair (tower 50) (pair u8 u8)).codec.elementSize = .finite 9007199254740994)
      ∧ halfMasked.leaves = (pair u8 u8).leaves
      ∧ (halfMasked.codec.decode.deserializePartial [5, 6]).map
            (fun read => (halfMasked.leafValues read.value, read.consumed))
          = .ok ([⟨u8, 6⟩], 2)
      ∧ ((pair u8 u8).codec.decode.deserializePartial [5, 6]).map
            (fun read => ((pair u8 u8).leafValues read.value, read.consumed))
          = .ok ([⟨u8, 5⟩, ⟨u8, 6⟩], 2) := by
  have tall : (tower 50).codec.elementSize = .finite (2 ^ (50 + 3)) :=
    elementSize_tower_of_le (by decide)
  refine ⟨⟨List.append_assoc _ _ _, ?_, ?_⟩, rfl, ?_, ?_⟩
  · change (tower 50).codec.elementSize + .finite 1 + .finite 1 = _
    rw [tall]
    decide +kernel
  · change (tower 50).codec.elementSize + (.finite 1 + .finite 1) = _
    rw [tall]
    decide +kernel
  · rw [Decoder.deserializePartial_eq]
    rfl
  · rw [Decoder.deserializePartial_eq]
    rfl

end Format

end PeerWire
