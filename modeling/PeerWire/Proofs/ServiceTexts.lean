import PeerWire.Proofs.Numerals
import PeerWire.Proofs.ServiceMasks

/-!
# Texts of masks

The text of a mask goes through the table of named bits. A bit that is set is listed by its name
and taken away, and what is left in the end is listed as one number (`peel`). As the table names
single bits, each once, it makes no difference that a bit is looked for in what is left and not in
the mask (`foldl_peel`): the names are those of the bits that are set, in the order of the table,
and what is left has exactly the other bits.

Nothing is lost in this. No item contains the bar that stands between items, names and numbers do
not look alike, and the bits of the items come to the bits of the mask, so the mask can be read
off its text (`ofText_toText`). Two masks with the same text are therefore the same.
-/

set_option autoImplicit false

attribute [local instance (high)] instPowNat

namespace PeerWire

namespace ServiceFlags

open Text

/-! ## Single bits -/

/-- The mask of one bit. -/
def single (bit : Nat) : ServiceFlags :=
  ⟨UInt64.ofNat (2 ^ bit)⟩

/-- The bits that have names, in the order in which texts list them. -/
def bitNames : List (String × Nat) :=
  [("NETWORK", 0), ("GETUTXO", 1), ("BLOOM", 2), ("WITNESS", 3), ("NETWORK_LIMITED", 10)]

theorem named_eq : named = bitNames.map fun entry => (entry.1, single entry.2) := by decide

theorem testBit_none (bit : Nat) : none.testBit bit = false :=
  Nat.zero_testBit bit

theorem testBit_single {bit : Nat} (small : bit < 64) (other : Nat) :
    (single bit).testBit other = decide (bit = other) := by
  have fits : 2 ^ bit < 2 ^ (64 : Nat) := Nat.pow_lt_pow_right (by decide) small
  rw [testBit, single, UInt64.toNat_ofNat', Nat.mod_eq_of_lt fits]
  exact Nat.testBit_two_pow

theorem has_single {bit : Nat} (small : bit < 64) (flags : ServiceFlags) :
    flags.has (single bit) = flags.testBit bit := by
  rw [Bool.eq_iff_iff, has_iff]
  simp only [testBit_single small, decide_eq_true_eq, forall_eq']

/-- Bits that are added to each other are set in the sum if one of them is. -/
theorem testBit_foldl_add (masks : List ServiceFlags) (start : ServiceFlags) (bit : Nat) :
    (masks.foldl add start).testBit bit
      = (start.testBit bit || masks.any fun mask => mask.testBit bit) := by
  induction masks generalizing start with
  | nil => rw [List.foldl_nil, List.any_nil, Bool.or_false]
  | cons mask rest ih => rw [List.foldl_cons, ih, testBit_add, List.any_cons, Bool.or_assoc]

/-! ## Peeling -/

/-- One entry of the table against what is left: if all of its bits are there, its name is listed
and they are taken away. -/
def peel (state : List Text × ServiceFlags) (entry : String × ServiceFlags) :
    List Text × ServiceFlags :=
  if state.2.has entry.2 then (state.1 ++ [.ofString entry.1], state.2.remove entry.2) else state

/-- The names of the bits that are set, of those in a table. -/
def namesIn (table : List (String × Nat)) (flags : ServiceFlags) : List Text :=
  (table.filter fun entry => flags.testBit entry.2).map fun entry => .ofString entry.1

/-- What is left without the bits of a table. -/
def without (table : List (String × Nat)) (flags : ServiceFlags) : ServiceFlags :=
  table.foldl (fun rest entry => rest.remove (single entry.2)) flags

/-- A bit that is not set can be taken away all the same. -/
theorem peel_single {bit : Nat} (small : bit < 64) (names : List Text) (rest : ServiceFlags)
    (name : String) :
    peel (names, rest) (name, single bit)
      = (names ++ namesIn [(name, bit)] rest, rest.remove (single bit)) := by
  rw [peel, has_single small, namesIn, List.filter_cons, List.filter_nil]
  cases set : rest.testBit bit with
  | true => rfl
  | false =>
    rw [if_neg Bool.false_ne_true]
    refine Prod.ext (List.append_nil names).symm (ext_testBit fun other => ?_)
    rw [testBit_remove, testBit_single small]
    by_cases same : bit = other
    · rw [← same, set]
      rfl
    · rw [decide_eq_false same]
      exact (Bool.and_true _).symm

section Table

variable {table : List (String × Nat)} (small : ∀ entry ∈ table, entry.2 < 64)
include small

theorem testBit_without (flags : ServiceFlags) (bit : Nat) :
    (without table flags).testBit bit = true
      ↔ flags.testBit bit = true ∧ ∀ entry ∈ table, entry.2 ≠ bit := by
  induction table generalizing flags with
  | nil => simp [without]
  | cons entry rest ih =>
    obtain ⟨first, others⟩ := List.forall_mem_cons.mp small
    change (without rest (flags.remove (single entry.2))).testBit bit = true ↔ _
    rw [ih others, testBit_remove, testBit_single first, List.forall_mem_cons]
    simp only [Bool.and_eq_true, Bool.not_eq_true', decide_eq_false_iff_not, ne_eq, and_assoc]

/-- Entries of single bits, each named once, list the names of the bits that are set, and leave
the mask without them. -/
theorem foldl_peel (distinct : (table.map Prod.snd).Nodup) (names : List Text)
    (flags : ServiceFlags) :
    (table.map fun entry => (entry.1, single entry.2)).foldl peel (names, flags)
      = (names ++ namesIn table flags, without table flags) := by
  induction table generalizing names flags with
  | nil => exact Prod.ext (List.append_nil names).symm rfl
  | cons entry rest ih =>
    obtain ⟨first, others⟩ := List.forall_mem_cons.mp small
    obtain ⟨unnamed, distinct⟩ := List.nodup_cons.mp distinct
    -- The bit that is taken away is none that a later entry asks for.
    have later : namesIn rest (flags.remove (single entry.2)) = namesIn rest flags := by
      refine congrArg (List.map _) (List.filter_congr fun other among => ?_)
      have apart : entry.2 ≠ other.2 := fun same =>
        unnamed (same ▸ List.mem_map_of_mem among)
      rw [testBit_remove, testBit_single first, decide_eq_false apart]
      exact Bool.and_true _
    have front : namesIn (entry :: rest) flags = namesIn [entry] flags ++ namesIn rest flags := by
      rw [namesIn, ← List.singleton_append, List.filter_append, List.map_append]
      rfl
    rw [List.map_cons, List.foldl_cons, peel_single first, ih others distinct, later, front,
      List.append_assoc]
    rfl

end Table

theorem small_bitNames : ∀ entry ∈ bitNames, entry.2 < 64 := by decide

/-- The table of names is gone through entry by entry. -/
theorem foldl_peel_named (flags : ServiceFlags) :
    named.foldl peel ([], flags) = (namesIn bitNames flags, without bitNames flags) := by
  rw [named_eq, foldl_peel small_bitNames (by decide)]
  rfl

/-- What is left is what the mask has of bits without a name. -/
theorem unnamed_eq (flags : ServiceFlags) : flags.unnamed = without bitNames flags := by
  rw [unnamed, named_eq, List.foldl_map]
  rfl

/-- What is left is listed as a number, unless it is nothing. -/
theorem items_eq (flags : ServiceFlags) :
    flags.items = namesIn bitNames flags
      ++ if flags.unnamed = none then []
        else [Text.ofString "0x" ++ .ofNatHex flags.unnamed.bits.toNat] := by
  have names : (named.filter fun entry => flags.has entry.2).map
      (fun entry => Text.ofString entry.1) = namesIn bitNames flags := by
    rw [named_eq, List.filter_map, List.map_map]
    refine congrArg (List.map _) (List.filter_congr fun entry among => ?_)
    exact has_single (small_bitNames entry among) flags
  rw [items, names]
  split
  · exact (List.append_nil _).symm
  · rfl

/-- What the text of a mask lists between its brackets. -/
def listed (flags : ServiceFlags) : List Text :=
  if flags = none then [.ofString "NONE"] else flags.items

/-! ## Reading texts -/

/-- The mask of an item: that of a name, or of the number behind a marker. -/
def ofItem (item : Text) : ServiceFlags :=
  match bitNames.find? fun entry => item = .ofString entry.1 with
  | some entry => single entry.2
  | .none =>
    if item.dropHexMarker = item then none
    else ⟨UInt64.ofNat (valueIn 16 item.dropHexMarker)⟩

/-- The mask of a text, from the items between its brackets. -/
def ofText (text : Text) : ServiceFlags :=
  let inside : Text := ⟨(text.units.drop (ofString "ServiceFlags(").length).dropLast⟩
  ((inside.splitOn 0x7c).map ofItem).foldl add none

theorem ofItem_name : ∀ entry ∈ bitNames, ofItem (.ofString entry.1) = single entry.2 := by decide

/-- No name begins with a digit, so a number is taken for no name. -/
theorem ofItem_numeral {numeral : Text} {rest : ServiceFlags}
    (isNumeral : IsNumeral 16 numeral rest.bits.toNat) :
    ofItem (ofString "0x" ++ numeral) = rest := by
  have heads : ∀ entry ∈ bitNames, (ofString entry.1).units.head? ≠ some 0x30 := by decide
  have unknown :
      (bitNames.find? fun entry => ofString "0x" ++ numeral = ofString entry.1) = .none := by
    refine List.find?_eq_none.mpr fun entry among => ?_
    rw [decide_eq_true_eq]
    intro same
    exact heads entry among (same ▸ rfl)
  have marked : numeral ≠ ofString "0x" ++ numeral := by
    intro same
    have size := congrArg length same
    have longer : (ofString "0x" ++ numeral).length = numeral.length + 2 := rfl
    omega
  rw [ofItem, unknown]
  dsimp only
  rw [dropHexMarker_small_marker, if_neg marked, isNumeral.makes, UInt64.ofNat_toNat]

/-- What is left is written as its numeral. -/
theorem isNumeral_unnamed (flags : ServiceFlags) :
    IsNumeral 16 (.ofNatHex flags.unnamed.bits.toNat) flags.unnamed.bits.toNat :=
  isNumeral_ofNatBase (by decide) (by decide) _

/-- The masks of the items are the named bits one by one, and what is left. -/
theorem map_ofItem_items (flags : ServiceFlags) :
    flags.items.map ofItem
      = ((bitNames.filter fun entry => flags.testBit entry.2).map fun entry => single entry.2)
        ++ if flags.unnamed = none then [] else [flags.unnamed] := by
  have names : (namesIn bitNames flags).map ofItem
      = (bitNames.filter fun entry => flags.testBit entry.2).map fun entry => single entry.2 := by
    rw [namesIn, List.map_map]
    exact List.map_congr_left fun entry among => ofItem_name entry (List.mem_filter.mp among).1
  rw [items_eq, List.map_append, names]
  split
  · rfl
  · rw [List.map_singleton, ofItem_numeral (isNumeral_unnamed flags)]

/-- A bit that is set has a name or is left. -/
theorem testBit_iff (flags : ServiceFlags) (bit : Nat) :
    flags.testBit bit = true
      ↔ (∃ entry ∈ bitNames, flags.testBit entry.2 = true ∧ entry.2 = bit)
        ∨ flags.unnamed.testBit bit = true := by
  rw [unnamed_eq, testBit_without small_bitNames]
  constructor
  · intro set
    by_cases found : ∃ entry ∈ bitNames, entry.2 = bit
    · obtain ⟨entry, among, rfl⟩ := found
      exact .inl ⟨entry, among, set, rfl⟩
    · exact .inr ⟨set, fun entry among same => found ⟨entry, among, same⟩⟩
  · rintro (⟨entry, -, set, rfl⟩ | ⟨set, -⟩)
    · exact set
    · exact set

/-- The bits of the items come to the bits of the mask. -/
theorem foldl_ofItem_items (flags : ServiceFlags) :
    (flags.items.map ofItem).foldl add none = flags := by
  refine ext_testBit fun bit => ?_
  have left : ((if flags.unnamed = none then [] else [flags.unnamed]).any fun mask =>
      mask.testBit bit) = flags.unnamed.testBit bit := by
    split
    · next nothing => rw [nothing, testBit_none, List.any_nil]
    · rw [List.any_cons, List.any_nil, Bool.or_false]
  have names : (((bitNames.filter fun entry => flags.testBit entry.2).map fun entry =>
      single entry.2).any fun mask => mask.testBit bit) = true
        ↔ ∃ entry ∈ bitNames, flags.testBit entry.2 = true ∧ entry.2 = bit := by
    rw [List.any_map, List.any_filter, List.any_eq_true]
    refine exists_congr fun entry => and_congr_right fun among => ?_
    rw [Function.comp_apply, testBit_single (small_bitNames entry among), Bool.and_eq_true,
      decide_eq_true_eq]
  rw [Bool.eq_iff_iff, map_ofItem_items, testBit_foldl_add, testBit_none, Bool.false_or,
    List.any_append, left, Bool.or_eq_true, names, ← testBit_iff]

/-- A mask with a bit has an item. -/
theorem items_ne_nil {flags : ServiceFlags} (some : flags ≠ none) : flags.items ≠ [] := by
  intro empty
  have sum := foldl_ofItem_items flags
  rw [empty] at sum
  exact some sum.symm

theorem foldl_ofItem_listed (flags : ServiceFlags) :
    (flags.listed.map ofItem).foldl add none = flags := by
  rw [listed]
  split
  · next nothing =>
    rw [nothing]
    decide
  · exact foldl_ofItem_items flags

/-- No item contains the bar. -/
theorem bar_not_mem_listed {flags : ServiceFlags} : ∀ item ∈ flags.listed, 0x7c ∉ item.units := by
  have names : ∀ entry ∈ bitNames, 0x7c ∉ (ofString entry.1).units := by decide
  intro item among
  rw [listed, items_eq] at among
  split at among
  · cases List.mem_singleton.mp among
    decide
  · rcases List.mem_append.mp among with name | numeral
    · obtain ⟨entry, inside, rfl⟩ := List.mem_map.mp name
      exact names entry (List.mem_filter.mp inside).1
    · split at numeral
      · cases numeral
      · cases List.mem_singleton.mp numeral
        rw [units_small_marker, List.mem_cons, List.mem_cons]
        rintro (zero | letter | digit)
        · exact absurd zero (by decide)
        · exact absurd letter (by decide)
        · have isNumeral := isNumeral_unnamed flags
          exact absurd (isNumeral.isLowerHexDigit (by decide) _ digit) (by decide)

/-- A mask is read off its text. -/
theorem ofText_toText (flags : ServiceFlags) : ofText flags.toText = flags := by
  have some : flags.listed ≠ [] := by
    rw [listed]
    split
    · exact List.cons_ne_nil _ _
    · next nonzero => exact items_ne_nil nonzero
  have units : flags.toText.units
      = (ofString "ServiceFlags(").units ++ ((join "|" flags.listed).units ++ [0x29]) := by
    rw [toText, concat, List.flatMap_cons, List.flatMap_cons, List.flatMap_singleton]
    rfl
  have split : splitOn 0x7c (join "|" flags.listed) = flags.listed :=
    splitOn_join bar_not_mem_listed some
  rw [ofText, units, length, List.drop_left, List.dropLast_concat]
  change ((splitOn 0x7c (join "|" flags.listed)).map ofItem).foldl add none = flags
  rw [split, foldl_ofItem_listed]

/-! ## Nothing is lost -/

/-- Masks have the same text exactly if they have the same bits, and the bits can be read off the
text. It is that of no services for zero only. Of any other mask the table is gone through with
what is left of it, which lists the names of the bits that are set and leaves the bits that have
no name. The text lists these names, in the order of the table, and after them a number exactly if
a bit is left: the numeral of what is left. -/
theorem toText_loses_nothing :
    (∀ one other : ServiceFlags, one.toText = other.toText ↔ one.bits = other.bits)
      ∧ ∀ flags : ServiceFlags, ofText flags.toText = flags
        ∧ (flags.toText = "ServiceFlags(NONE)" ↔ flags.bits = 0)
        ∧ (flags.bits ≠ 0 → ∃ (names final : List Text) (rest : ServiceFlags),
            named.foldl peel ([], flags) = (names, rest)
              ∧ names = (bitNames.filter fun entry => flags.testBit entry.2).map
                  (fun entry => ofString entry.1)
              ∧ (∀ bit, rest.testBit bit = true
                  ↔ flags.testBit bit = true ∧ ∀ entry ∈ bitNames, entry.2 ≠ bit)
              ∧ flags.toText = .concat ["ServiceFlags(", .join "|" (names ++ final), ")"]
              ∧ (final = [] ↔ rest.bits = 0)
              ∧ (rest.bits ≠ 0 → ∃ numeral,
                  IsNumeral 16 numeral rest.bits.toNat ∧ final = ["0x" ++ numeral])) := by
  have zero (flags : ServiceFlags) : flags = none ↔ flags.bits = 0 :=
    ⟨congrArg bits, congrArg ServiceFlags.mk⟩
  refine ⟨fun one other => ⟨fun same => ?_, fun same => ?_⟩,
    fun flags => ⟨ofText_toText flags, ⟨fun same => ?_, fun nothing => ?_⟩, fun nonzero => ?_⟩⟩
  · rw [← ofText_toText one, same, ofText_toText]
  · exact congrArg (fun bits => toText ⟨bits⟩) same
  · rw [← ofText_toText flags, same]
    decide
  · rw [(zero flags).mpr nothing]
    decide
  · refine ⟨namesIn bitNames flags, if flags.unnamed = none then []
        else [ofString "0x" ++ .ofNatHex flags.unnamed.bits.toNat], flags.unnamed, ?_, rfl, ?_, ?_,
      ?_, fun left => ?_⟩
    · rw [foldl_peel_named, unnamed_eq]
    · rw [unnamed_eq]
      exact testBit_without small_bitNames flags
    · rw [toText, if_neg (mt (zero flags).mp nonzero), items_eq]
    · rw [← zero]
      split
      · next nothing => exact iff_of_true rfl nothing
      · next left => exact iff_of_false (List.cons_ne_nil _ _) left
    · exact ⟨_, isNumeral_unnamed flags, if_neg (mt (zero _).mp left)⟩

/-- Bits without a name may lie between those that have one. -/
theorem toText_loses_nothing_between :
    (∃ numeral, IsNumeral 16 numeral 0x220
        ∧ toText ⟨0x62a⟩
          = .concat ["ServiceFlags(",
              .join "|" ["GETUTXO", "WITNESS", "NETWORK_LIMITED", "0x" ++ numeral], ")"])
      ∧ toText ⟨0x62a⟩ ≠ toText ⟨0x60a⟩ := by
  obtain ⟨distinct, lists⟩ := toText_loses_nothing
  let expected : List Text := ["GETUTXO", "WITNESS", "NETWORK_LIMITED"]
  refine ⟨?_, fun same => ?_⟩
  · obtain ⟨names, final, rest, peeled, isNames, -, text, -, numbered⟩ :=
      (lists ⟨0x62a⟩).2.2 (by decide)
    have left : rest = ⟨0x220⟩ := (congrArg Prod.snd peeled).symm.trans (by decide)
    have known : names = expected := isNames.trans (by decide)
    subst left
    obtain ⟨numeral, isNumeral, rfl⟩ := numbered (by decide)
    rw [known] at text
    exact ⟨numeral, isNumeral, text⟩
  · exact absurd ((distinct ⟨0x62a⟩ ⟨0x60a⟩).mp same) (by decide)

end ServiceFlags

end PeerWire
