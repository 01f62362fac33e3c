import Mathlib.Data.List.Basic
import PeerWire.Address
import PeerWire.Proofs.Integers
import PeerWire.Proofs.Numerals

/-!
# Texts of hosts

A dotted quad is four parts, each of one to three decimal digits that make at most 255, joined by
points (`Address.IsQuad`). Exactly these are read as the host of an address
(`Address.ipv4Groups?_eq_some_iff`), zeros in front of a part being let pass, and the four numbers
are packed into its last two groups.

The text of such a host is the quad of the four numbers without zeros in front, and it is read as
the same groups again (`Address.ipv4Groups?_hostText`). Any other host is written by its groups in
hexadecimal with colons between them, which is no quad, as nothing in it is a point
(`Address.ipv4Groups?_hostText_eq_none`), and from which the groups can be read off
(`Address.readGroups_hostText`). So no two hosts have the same text.
-/

set_option autoImplicit false

attribute [local instance (high)] instPowNat

namespace PeerWire

namespace Address

open Text

/-! ## Dotted quads -/

/-- A part of a dotted quad with its value: one to three decimal digits that make at most 255. -/
structure IsOctet (part : Text) (value : Nat) : Prop where
  some : 1 ≤ part.length
  short : part.length ≤ 3
  decimal : ∀ unit ∈ part.units, 0x30 ≤ unit ∧ unit ≤ 0x39
  makes : valueIn 10 part = value
  small : value ≤ 255

/-- Four parts with points between them, and their values. -/
def IsQuad (host : Text) (a b c d : Nat) : Prop :=
  ∃ first second third fourth, host = .join "." [first, second, third, fourth]
    ∧ IsOctet first a ∧ IsOctet second b ∧ IsOctet third c ∧ IsOctet fourth d

/-- The groups of the host with four given numbers. -/
def quadGroups (a b c d : Nat) : List Number :=
  ipv4Front ++ [.int (256 * a + b : Nat), .int (256 * c + d : Nat)]

/-- The digits of a decimal text make the same number, whether its units are asked for their
values as digits or for their distance from zero. -/
theorem valueIn_eq_of_decimal {part : Text}
    (decimal : ∀ unit ∈ part.units, 0x30 ≤ unit ∧ unit ≤ 0x39) :
    valueIn 10 part
      = (part.units.map UInt16.toNat).foldl (fun value digit => 10 * value + (digit - 0x30)) 0 := by
  have values : part.units.filterMap hexValue? = part.units.map fun unit => unit.toNat - 0x30 := by
    refine List.filterMap_eq_map_iff_forall_eq_some.mpr fun unit inside => ?_
    rw [hexValue?, if_pos (decimal unit inside)]
  rw [valueIn, values, List.foldl_map, List.foldl_map]

/-- A part is read exactly if it is one of a quad. -/
theorem octet?_eq_some_iff {part : Text} {value : Nat} :
    octet? part = some value ↔ IsOctet part value := by
  have decimal : (part.units.map UInt16.toNat).all (fun d => 0x30 ≤ d && d ≤ 0x39) = true
      ↔ ∀ unit ∈ part.units, 0x30 ≤ unit ∧ unit ≤ 0x39 := by
    rw [List.all_eq_true, List.forall_mem_map]
    simp only [Bool.and_eq_true, decide_eq_true_eq, UInt16.le_iff_toNat_le]
    rfl
  rw [octet?, List.length_map]
  constructor
  · intro read
    split at read
    · next within =>
      obtain ⟨⟨some, short⟩, digits, small⟩ := within
      have digits := decimal.mp digits
      rw [← valueIn_eq_of_decimal digits] at read small
      cases read
      exact ⟨some, short, digits, rfl, small⟩
    · cases read
  · rintro ⟨some, short, digits, rfl, small⟩
    rw [valueIn_eq_of_decimal digits] at small ⊢
    rw [if_pos ⟨⟨some, short⟩, decimal.mpr digits, small⟩]

/-- A point is in no part. -/
theorem IsOctet.point_not_mem {part : Text} {value : Nat} (octet : IsOctet part value) :
    0x2e ∉ part.units :=
  fun inside => absurd (octet.decimal 0x2e inside) (by decide)

/-- A host is read exactly if it is a dotted quad, as the groups of its four numbers. -/
theorem ipv4Groups?_eq_some_iff {host : Text} {groups : List Number} :
    ipv4Groups? host = some groups
      ↔ ∃ a b c d, IsQuad host a b c d ∧ groups = quadGroups a b c d := by
  rw [ipv4Groups?]
  constructor
  · intro read
    split at read
    · next a b c d parts =>
      cases read
      obtain ⟨first, rest, split, one, parts⟩ := List.map_eq_cons_iff.mp parts
      obtain ⟨second, rest, rfl, two, parts⟩ := List.map_eq_cons_iff.mp parts
      obtain ⟨third, rest, rfl, three, parts⟩ := List.map_eq_cons_iff.mp parts
      obtain ⟨fourth, rest, rfl, four, parts⟩ := List.map_eq_cons_iff.mp parts
      obtain rfl := List.map_eq_nil_iff.mp parts
      have joined := join_splitOn 0x2e host
      rw [split] at joined
      exact ⟨a, b, c, d, ⟨first, second, third, fourth, joined.symm, octet?_eq_some_iff.mp one,
        octet?_eq_some_iff.mp two, octet?_eq_some_iff.mp three, octet?_eq_some_iff.mp four⟩, rfl⟩
    · cases read
  · rintro ⟨a, b, c, d, ⟨first, second, third, fourth, rfl, one, two, three, four⟩, rfl⟩
    have without : ∀ part ∈ [first, second, third, fourth], 0x2e ∉ part.units := by
      simp only [List.forall_mem_cons, List.not_mem_nil, false_imp_iff, implies_true, and_true]
      exact ⟨one.point_not_mem, two.point_not_mem, three.point_not_mem, four.point_not_mem⟩
    have split : splitOn 0x2e (.join "." [first, second, third, fourth])
        = [first, second, third, fourth] := splitOn_join without (List.cons_ne_nil _ _)
    rw [split]
    simp only [List.map_cons, List.map_nil, octet?_eq_some_iff.mpr one,
      octet?_eq_some_iff.mpr two, octet?_eq_some_iff.mpr three, octet?_eq_some_iff.mpr four]
    rfl

/-- The decimal numeral of a number up to 255 is a part of a quad. -/
theorem isOctet_ofNat {value : Nat} (small : value ≤ 255) : IsOctet (.ofNat value) value := by
  have numeral : IsNumeral 10 (.ofNat value) value :=
    isNumeral_ofNatBase (by decide) (by decide) value
  refine ⟨List.length_pos_iff.mpr numeral.nonempty, ?_, ?_, numeral.makes, small⟩
  · have below : value < 10 ^ (2 + 1) := Nat.lt_of_le_of_lt small (by decide)
    exact length_ofNatBase_le (by decide) (by decide) below
  · intro unit inside
    obtain ⟨digit, below, rfl⟩ := numeral.digits unit inside
    have all : ∀ digit < 10, 0x30 ≤ hexDigit digit ∧ hexDigit digit ≤ 0x39 := by decide
    exact all digit below

/-! ## Groups -/

/-- Eight groups of sixteen bits. -/
def IsGroups (groups : List Number) : Prop :=
  groups.length = groupCount ∧ ∀ group ∈ groups, group.isUnsigned 16 = true

/-- The groups are those of an IPv4 host. -/
def IsMapped (groups : List Number) : Prop :=
  groups.take 6 = [0, 0, 0, 0, 0, 0xffff]

/-- A group fits sixteen bits if it is a natural number below their count. -/
theorem isUnsigned_sixteen_iff {group : Number} :
    group.isUnsigned 16 = true ↔ ∃ word : Nat, group = .int word ∧ word < 65536 := by
  have fits : group.isUnsigned (8 * 2) = true
      ↔ ∃ value : Int, group = .int value ∧ 0 ≤ value ∧ value < (256 ^ 2 : Nat) :=
    Number.isUnsigned_iff
  refine fits.trans ?_
  constructor
  · rintro ⟨value, rfl, nonnegative, below⟩
    have word := Int.toNat_of_nonneg nonnegative
    exact ⟨value.toNat, by rw [word], by omega⟩
  · rintro ⟨word, rfl, below⟩
    exact ⟨word, rfl, by omega, by omega⟩

/-! ## Texts of IPv4 hosts -/

/-- The two numbers that a group holds. -/
theorem octets_int {high low : Nat} (highSmall : high ≤ 255) (lowSmall : low ≤ 255) :
    octets (.int (256 * high + low : Nat)) = [(high : Int), (low : Int)] := by
  have word : ((256 * high + low : Nat) : Int).bmod (2 ^ (32 : Nat))
      = (256 * high + low : Nat) := by
    refine Int.bmod_eq_of_le ?_ ?_ <;> omega
  have quotient : ((256 * high + low : Nat) : Int) / 256 = high := by omega
  have remainder : ((256 * high + low : Nat) : Int) % 256 = low := by omega
  simp only [octets, Number.truncate, word, quotient, remainder]

theorem ofInt_natCast (value : Nat) : Text.ofInt value = .ofNat value := by
  rw [ofInt, ofIntBase, if_neg (by omega), Int.natAbs_natCast, ofNat]

section Quads

variable {a b c d : Nat} (aSmall : a ≤ 255) (bSmall : b ≤ 255) (cSmall : c ≤ 255) (dSmall : d ≤ 255)
include aSmall bSmall cSmall dSmall

/-- The text of a host with four numbers is their quad. -/
theorem hostText_quadGroups :
    hostText (quadGroups a b c d) = .join "." [.ofNat a, .ofNat b, .ofNat c, .ofNat d] := by
  have front : (quadGroups a b c d).take ipv4Front.length = ipv4Front := rfl
  have sixth : (quadGroups a b c d).getD 6 0 = .int (256 * a + b : Nat) := rfl
  have seventh : (quadGroups a b c d).getD 7 0 = .int (256 * c + d : Nat) := rfl
  rw [hostText, if_pos front, sixth, seventh, octets_int aSmall bSmall, octets_int cSmall dSmall]
  simp only [List.cons_append, List.nil_append, List.map_cons, List.map_nil, ofInt_natCast]

theorem isQuad_hostText : IsQuad (hostText (quadGroups a b c d)) a b c d :=
  ⟨_, _, _, _, hostText_quadGroups aSmall bSmall cSmall dSmall, isOctet_ofNat aSmall,
    isOctet_ofNat bSmall, isOctet_ofNat cSmall, isOctet_ofNat dSmall⟩

theorem isGroups_quadGroups : IsGroups (quadGroups a b c d) := by
  have fits : ∀ high low : Nat, high ≤ 255 → low ≤ 255 →
      (Number.int (256 * high + low : Nat)).isUnsigned 16 = true := by
    intro high low highSmall lowSmall
    exact isUnsigned_sixteen_iff.mpr ⟨_, rfl, by omega⟩
  refine ⟨rfl, List.forall_mem_append.mpr ⟨by decide, ?_⟩⟩
  simp only [List.forall_mem_cons, List.not_mem_nil, false_imp_iff, implies_true, and_true]
  exact ⟨fits a b aSmall bSmall, fits c d cSmall dSmall⟩

end Quads

/-- The groups of an IPv4 host hold four numbers. -/
theorem exists_quadGroups {groups : List Number} (isGroups : IsGroups groups)
    (mapped : IsMapped groups) :
    ∃ a b c d, (a ≤ 255 ∧ b ≤ 255 ∧ c ≤ 255 ∧ d ≤ 255) ∧ groups = quadGroups a b c d := by
  obtain ⟨size, fits⟩ := isGroups
  have behind : (groups.drop 6).length = 2 := by rw [List.length_drop, size, groupCount]
  obtain ⟨sixth, seventh, last⟩ := List.length_eq_two.mp behind
  have whole : groups = ipv4Front ++ [sixth, seventh] := by
    conv => lhs; rw [← List.take_append_drop 6 groups, mapped, last]
    rfl
  obtain ⟨high, rfl, highBelow⟩ :=
    isUnsigned_sixteen_iff.mp (fits sixth (by rw [whole]; simp))
  obtain ⟨low, rfl, lowBelow⟩ :=
    isUnsigned_sixteen_iff.mp (fits seventh (by rw [whole]; simp))
  refine ⟨high / 256, high % 256, low / 256, low % 256, by omega, ?_⟩
  rw [whole, quadGroups, Nat.div_add_mod, Nat.div_add_mod]

/-- The text of an IPv4 host is read as its groups. -/
theorem ipv4Groups?_hostText {groups : List Number} (isGroups : IsGroups groups)
    (mapped : IsMapped groups) : ipv4Groups? (hostText groups) = some groups := by
  obtain ⟨a, b, c, d, ⟨aSmall, bSmall, cSmall, dSmall⟩, rfl⟩ := exists_quadGroups isGroups mapped
  exact ipv4Groups?_eq_some_iff.mpr ⟨a, b, c, d, isQuad_hostText aSmall bSmall cSmall dSmall, rfl⟩

/-! ## Texts of other hosts -/

/-- The numbers that stand between colons, in hexadecimal. -/
def readGroups (host : Text) : List Number :=
  (host.splitOn 0x3a).map fun part => .int (valueIn 16 part)

theorem hostText_of_not_isMapped {groups : List Number} (unmapped : ¬ IsMapped groups) :
    hostText groups = .join ":" (groups.map Number.toHexText) := by
  rw [hostText]
  exact if_neg unmapped

/-- A group of sixteen bits is written by its numeral. -/
theorem isNumeral_toHexText {group : Number} (fits : group.isUnsigned 16 = true) :
    ∃ word : Nat, group = .int word ∧ IsNumeral 16 group.toHexText word := by
  obtain ⟨word, rfl, -⟩ := isUnsigned_sixteen_iff.mp fits
  refine ⟨word, rfl, ?_⟩
  rw [Number.toHexText, ofIntBase, if_neg (by omega), Int.natAbs_natCast]
  exact isNumeral_ofNatBase (by decide) (by decide) word

/-- A unit of the numerals is a digit. -/
theorem isLowerHexDigit_of_mem_toHexText {groups : List Number} (isGroups : IsGroups groups) :
    ∀ part ∈ groups.map Number.toHexText, ∀ unit ∈ part.units, IsLowerHexDigit unit := by
  intro part inside
  obtain ⟨group, among, rfl⟩ := List.mem_map.mp inside
  obtain ⟨word, -, numeral⟩ := isNumeral_toHexText (isGroups.2 group among)
  exact numeral.isLowerHexDigit (by decide)

section Unmapped

variable {groups : List Number} (isGroups : IsGroups groups) (unmapped : ¬ IsMapped groups)
include isGroups unmapped

/-- No point stands between colons and digits, so there is no quad. -/
theorem ipv4Groups?_hostText_eq_none : ipv4Groups? (hostText groups) = none := by
  have point : 0x2e ∉ (hostText groups).units := by
    rw [hostText_of_not_isMapped unmapped]
    intro inside
    rcases mem_join inside with colon | ⟨part, among, within⟩
    · exact absurd colon (by decide)
    · exact absurd (isLowerHexDigit_of_mem_toHexText isGroups part among _ within) (by decide)
  rw [ipv4Groups?, splitOn_of_not_mem point, List.map_singleton]
  cases octet? (hostText groups) <;> rfl

/-- The groups are read off the text. -/
theorem readGroups_hostText : readGroups (hostText groups) = groups := by
  have without : ∀ part ∈ groups.map Number.toHexText, 0x3a ∉ part.units := by
    intro part among inside
    exact absurd (isLowerHexDigit_of_mem_toHexText isGroups part among _ inside) (by decide)
  have some : groups.map Number.toHexText ≠ [] := by
    intro empty
    rw [List.map_eq_nil_iff] at empty
    exact absurd (empty ▸ isGroups.1) (by decide)
  have split : splitOn 0x3a (.join ":" (groups.map Number.toHexText))
      = groups.map Number.toHexText := splitOn_join without some
  rw [readGroups, hostText_of_not_isMapped unmapped, split, List.map_map]
  refine (List.map_congr_left fun group among => ?_).trans (List.map_id groups)
  obtain ⟨word, rfl, numeral⟩ := isNumeral_toHexText (isGroups.2 group among)
  exact congrArg (fun value : Nat => Number.int value) numeral.makes

end Unmapped

/-! ## Agreement -/

/-- A host with the text of another one has its groups. -/
theorem eq_of_hostText_eq {groups others : List Number} (isGroups : IsGroups groups)
    (otherGroups : IsGroups others) (same : hostText groups = hostText others) :
    groups = others := by
  by_cases mapped : IsMapped groups <;> by_cases otherMapped : IsMapped others
  · have read := ipv4Groups?_hostText isGroups mapped
    rw [same, ipv4Groups?_hostText otherGroups otherMapped] at read
    exact (Option.some.inj read).symm
  · have read := ipv4Groups?_hostText isGroups mapped
    rw [same, ipv4Groups?_hostText_eq_none otherGroups otherMapped] at read
    cases read
  · have read := ipv4Groups?_hostText otherGroups otherMapped
    rw [← same, ipv4Groups?_hostText_eq_none isGroups mapped] at read
    cases read
  · rw [← readGroups_hostText isGroups mapped, same, readGroups_hostText otherGroups otherMapped]

/-- Every value of a part is small, so a quad is packed into groups of sixteen bits. -/
theorem IsQuad.small {host : Text} {a b c d : Nat} (quad : IsQuad host a b c d) :
    a ≤ 255 ∧ b ≤ 255 ∧ c ≤ 255 ∧ d ≤ 255 := by
  obtain ⟨_, _, _, _, -, one, two, three, four⟩ := quad
  exact ⟨one.small, two.small, three.small, four.small⟩

/-- Making an address of a host is reading its groups. -/
theorem ofIpv4_eq_ok_iff {services : ServiceFlags} {host : Text} {port : Number}
    {address : Address} :
    ofIpv4 services host port = .ok address
      ↔ ∃ groups, ipv4Groups? host = some groups ∧ address = ⟨services, groups, port⟩ := by
  rw [ofIpv4]
  cases ipv4Groups? host with
  | none => exact iff_of_false nofun nofun
  | some groups => simp [eq_comm]

/-- An address is made of exactly the dotted quads. Its groups are those of the four numbers, and
its text is the four numbers, in decimal without zeros in front, with points between them; for any
other text the fault is one of shape, and names the text. Of all addresses with eight groups of
sixteen bits no two with different groups have the same text, and an address is made of the text
of one, with its groups, exactly if the first six are those in front of an IPv4 host. -/
theorem texts_and_groups_agree :
    (∀ (services : ServiceFlags) (host : Text) (port : Number),
        ((∃ address, ofIpv4 services host port = .ok address) ↔ ∃ a b c d, IsQuad host a b c d)
          ∧ (∀ fault, ofIpv4 services host port = .error fault →
              fault = .notIpv4 host ∧ fault.kind = .shape)
          ∧ ∀ a b c d, IsQuad host a b c d →
              ∃ groups, ofIpv4 services host port = .ok ⟨services, groups, port⟩
                ∧ groups = [0, 0, 0, 0, 0, 0xffff, .int (256 * a + b : Nat),
                    .int (256 * c + d : Nat)]
                ∧ IsGroups groups
                ∧ ∃ first second third fourth,
                  hostText groups = .join "." [first, second, third, fourth]
                    ∧ IsNumeral 10 first a ∧ IsNumeral 10 second b ∧ IsNumeral 10 third c
                    ∧ IsNumeral 10 fourth d)
      ∧ (∀ one other : Address, IsGroups one.groups → IsGroups other.groups →
          (hostText one.groups = hostText other.groups ↔ one.groups = other.groups))
      ∧ ∀ (address : Address) (services : ServiceFlags) (port : Number), IsGroups address.groups →
          (address.groups.take 6 = [0, 0, 0, 0, 0, 0xffff] →
              ofIpv4 services (hostText address.groups) port
                = .ok ⟨services, address.groups, port⟩)
            ∧ (address.groups.take 6 ≠ [0, 0, 0, 0, 0, 0xffff] →
              ∃ fault, ofIpv4 services (hostText address.groups) port = .error fault
                ∧ fault.kind = .shape) := by
  refine ⟨fun services host port => ⟨?_, ?_, ?_⟩, ?_, fun address services port isGroups => ?_⟩
  · simp only [ofIpv4_eq_ok_iff, ipv4Groups?_eq_some_iff]
    constructor
    · rintro ⟨-, -, ⟨a, b, c, d, quad, -⟩, -⟩
      exact ⟨a, b, c, d, quad⟩
    · rintro ⟨a, b, c, d, quad⟩
      exact ⟨_, _, ⟨a, b, c, d, quad, rfl⟩, rfl⟩
  · intro fault failed
    rw [ofIpv4] at failed
    split at failed
    · cases failed
    · cases failed
      exact ⟨rfl, rfl⟩
  · intro a b c d quad
    obtain ⟨aSmall, bSmall, cSmall, dSmall⟩ := quad.small
    have made : ofIpv4 services host port = .ok ⟨services, quadGroups a b c d, port⟩ :=
      ofIpv4_eq_ok_iff.mpr ⟨_, ipv4Groups?_eq_some_iff.mpr ⟨a, b, c, d, quad, rfl⟩, rfl⟩
    have numeral (value : Nat) : IsNumeral 10 (.ofNat value) value :=
      isNumeral_ofNatBase (by decide) (by decide) value
    exact ⟨_, made, rfl, isGroups_quadGroups aSmall bSmall cSmall dSmall, _, _, _, _,
      hostText_quadGroups aSmall bSmall cSmall dSmall, numeral a, numeral b, numeral c, numeral d⟩
  · intro one other isGroups otherGroups
    exact ⟨eq_of_hostText_eq isGroups otherGroups, congrArg hostText⟩
  · refine ⟨fun mapped => ?_, fun unmapped => ?_⟩
    · exact ofIpv4_eq_ok_iff.mpr ⟨_, ipv4Groups?_hostText isGroups mapped, rfl⟩
    · rw [ofIpv4, ipv4Groups?_hostText_eq_none isGroups unmapped]
      exact ⟨_, rfl, rfl⟩

/-- Zeros in front of a part are let pass and not written again. Groups that differ from those in
front of an IPv4 host in one of them are written with colons, and no address is made of that. -/
theorem texts_and_groups_agree_zeros :
    (∃ groups, ofIpv4 .network "010.0.00.7" 8333 = .ok ⟨.network, groups, 8333⟩
        ∧ groups = [0, 0, 0, 0, 0, 0xffff, 0x0a00, 0x0007]
        ∧ ofIpv4 .none (hostText groups) 1 = .ok ⟨.none, groups, 1⟩)
      ∧ (∃ fault, ofIpv4 .none (hostText [0, 0, 0, 0, 0, 0xfffe, 0x0a00, 0x0007]) 1 = .error fault
          ∧ fault.kind = .shape)
      ∧ hostText [0, 0, 0, 0, 0, 0xffff, 0x0a00, 0x0007]
          ≠ hostText [0, 0, 0, 0, 0, 0xfffe, 0x0a00, 0x0007] := by
  obtain ⟨reads, distinct, again⟩ := texts_and_groups_agree
  have quad : IsQuad "010.0.00.7" 10 0 0 7 := by
    refine ⟨"010", "0", "00", "7", by decide, ?_, ?_, ?_, ?_⟩ <;>
      exact octet?_eq_some_iff.mp (by decide)
  let mapped : Address := ⟨.none, [0, 0, 0, 0, 0, 0xffff, 0x0a00, 0x0007], 1⟩
  let unmapped : Address := ⟨.none, [0, 0, 0, 0, 0, 0xfffe, 0x0a00, 0x0007], 1⟩
  have isGroups : IsGroups mapped.groups := ⟨rfl, by decide⟩
  have otherGroups : IsGroups unmapped.groups := ⟨rfl, by decide⟩
  refine ⟨?_, ?_, ?_⟩
  · obtain ⟨groups, made, rfl, -⟩ := (reads .network "010.0.00.7" 8333).2.2 10 0 0 7 quad
    exact ⟨_, made, rfl, (again mapped .none 1 isGroups).1 rfl⟩
  · exact (again unmapped .none 1 otherGroups).2 (by decide)
  · intro same
    exact absurd ((distinct mapped unmapped isGroups otherGroups).mp same) (by decide)

end Address

end PeerWire
