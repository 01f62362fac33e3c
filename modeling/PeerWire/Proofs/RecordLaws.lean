import PeerWire.Handshake
import PeerWire.Inventory
import PeerWire.Proofs.SequenceLaws

/-!
# Laws of the records

What the messages are put together from: networks, masks of services, addresses,
kinds and reasons, inventories, introductions and rejections. All of them are
restored, and up to the last two they are canonical.

An introduction ends in a truth value, which has many forms. A rejection names a
message; the name is read as any text and written only if it is a command name, so
that some rejections are read and cannot be written.

A value known by a code is restored because no two values share one. It is canonical
whatever the codes are, since looking a code up finds a value with that code.
-/

set_option autoImplicit false

namespace PeerWire

/-! ## Values known by codes -/

namespace Codec

variable {α : Type} {all : List α} {code : α → Nat} {unknown : Number → ConsensusError}

/-- The value of a code, among given ones. -/
def ofCode? (all : List α) (code : α → Nat) (number : Number) : Option α :=
  all.find? fun value => Number.int (code value) = number

theorem code_of_ofCode? {number : Number} {value : α}
    (found : ofCode? all code number = some value) : Number.int (code value) = number :=
  of_decide_eq_true
    (List.find?_some (p := fun value => decide (Number.int (code value) = number)) found)

/-- Values known by codes of a fixed width. -/
def coded (width : Nat) (all : List α) (code : α → Nat) (unknown : Number → ConsensusError) :
    Codec α :=
  (unsigned .little width).refine (fun value => .int (code value)) fun number =>
    match ofCode? all code number with
    | some value => .ok value
    | none => .error (unknown number)

theorem restores_coded {width : Nat}
    (distinct : ∀ value, ofCode? all code (.int (code value)) = some value) :
    (coded width all code unknown).Restores fun _ => [] := by
  refine (restores_unsigned .little width).refine fun value => ?_
  rw [distinct]

theorem canonical_coded {width : Nat} : (coded width all code unknown).Canonical := by
  refine (canonical_unsigned .little width).refine fun _ accepted => ?_
  split at accepted
  · next found lookup =>
    cases accepted
    exact code_of_ofCode? lookup
  · cases accepted

end Codec

namespace Network

theorem codec_eq_coded : codec = .coded 4 all magic .unknownNetworkMagic := by
  rw [codec, Codec.coded, Codec.u32]
  congr
  funext number
  rw [ofMagic?, Codec.ofCode?]
  cases all.find? fun network => Number.int (magic network) = number <;> rfl

theorem restores_codec : codec.Restores fun _ => [] := by
  rw [codec_eq_coded]
  exact Codec.restores_coded fun network => by cases network <;> rfl

theorem canonical_codec : codec.Canonical := by
  rw [codec_eq_coded]
  exact Codec.canonical_coded

end Network

namespace InventoryType

theorem codec_eq_coded : codec = .coded 4 all code .unknownInventoryType := by
  rw [codec, Codec.coded, Codec.u32]
  congr
  funext number
  rw [ofCode?, Codec.ofCode?]
  cases all.find? fun kind => Number.int (code kind) = number <;> rfl

theorem restores_codec : codec.Restores fun _ => [] := by
  rw [codec_eq_coded]
  exact Codec.restores_coded fun kind => by cases kind <;> rfl

theorem canonical_codec : codec.Canonical := by
  rw [codec_eq_coded]
  exact Codec.canonical_coded

end InventoryType

namespace RejectReason

theorem codec_eq_coded :
    codec = .coded 1 all code fun _ => .parseFailed .unknownRejectCode := by
  rw [codec, Codec.coded, Codec.u8]
  congr
  funext number
  rw [ofCode?, Codec.ofCode?]
  cases all.find? fun reason => Number.int (code reason) = number <;> rfl

theorem restores_codec : codec.Restores fun _ => [] := by
  rw [codec_eq_coded]
  exact Codec.restores_coded fun reason => by cases reason <;> rfl

theorem canonical_codec : codec.Canonical := by
  rw [codec_eq_coded]
  exact Codec.canonical_coded

end RejectReason

/-! ## Addresses -/

namespace ServiceFlags

theorem restores_codec : codec.Restores fun _ => [] := by
  refine Codec.restores_u64.map fun flags => ?_
  rw [Int.toNat_natCast, UInt64.ofNat_toNat]

theorem canonical_codec : codec.Canonical := by
  refine Codec.canonical_u64.map fun {bits bytes} written => ?_
  obtain ⟨⟨lower, upper⟩, -⟩ := Codec.serialize_u64_eq_ok.mp written
  dsimp only
  rw [UInt64.toNat_ofNat', Nat.mod_eq_of_lt (by omega), Int.toNat_of_nonneg lower]

end ServiceFlags

namespace Address

theorem serialize_groupsCodec_eq_ok {groups : List Number} {bytes : Bytes} :
    groupsCodec.serialize groups = .ok bytes
      ↔ groups.length = groupCount ∧ Codec.u16Network.serializeAll groups = .ok bytes := by
  rw [Codec.serialize, groupsCodec]
  dsimp only
  split
  · next size =>
    rw [and_iff_right size, Codec.serializeAll, Emission.addUp_zero]
  · next size =>
    constructor
    · rintro ⟨⟩
    · rintro ⟨right, _⟩
      exact absurd right size

theorem restores_groupsCodec : groupsCodec.Restores fun _ => [] := by
  refine .of_parse_append fun {groups bytes} written suffix => ?_
  obtain ⟨size, inside⟩ := serialize_groupsCodec_eq_ok.mp written
  have nothing : groups.flatMap (fun _ => ([] : List Demand)) = [] :=
    List.flatMap_eq_nil_iff.mpr fun _ _ => rfl
  rw [groupsCodec, ← size]
  exact ((Codec.restores_unsigned .big 2).times inside suffix).1 (by rw [nothing]; rfl)

theorem canonical_groupsCodec : groupsCodec.Canonical := by
  intro bytes rest groups parsed
  obtain ⟨size, front, written, split⟩ := (Codec.canonical_unsigned .big 2).times parsed
  exact ⟨front, serialize_groupsCodec_eq_ok.mpr ⟨size, written⟩, split⟩

theorem restores_codec : codec.Restores fun _ => [] :=
  (ServiceFlags.restores_codec.pair
    (restores_groupsCodec.pair (Codec.restores_unsigned .big 2))).map fun _ => rfl

theorem canonical_codec : codec.Canonical :=
  (ServiceFlags.canonical_codec.pair
    (canonical_groupsCodec.pair (Codec.canonical_unsigned .big 2))).map fun _ => rfl

end Address

/-! ## Inventories -/

namespace Inventory

theorem restores_codec : codec.Restores fun _ => [] :=
  (InventoryType.restores_codec.pair (Codec.restores_fixedBytes 32)).map fun _ => rfl

theorem canonical_codec : codec.Canonical :=
  (InventoryType.canonical_codec.pair (Codec.canonical_fixedBytes 32)).map fun _ => rfl

theorem elementSize_codec : codec.elementSize = .finite 36 := by
  decide +kernel

/-- The demand of objects behind their count. -/
def listDemand (items : List Inventory) : Demand :=
  ⟨items.length, codec.elementSize.toNat⟩

theorem restores_listCodec : listCodec.Restores fun items => [listDemand items] := by
  refine (restores_codec.vector (by rw [elementSize_codec]; trivial)).congr fun items => ?_
  rw [List.flatMap_eq_nil_iff.mpr fun _ _ => rfl, listDemand]

theorem canonical_listCodec : listCodec.Canonical :=
  canonical_codec.vector

end Inventory

/-! ## Introductions and rejections -/

/-- The demand of a text behind its length. -/
def Text.demand (text : Text) : Demand :=
  ⟨text.toUtf8.length, 1⟩

theorem VersionMessage.restores_codec :
    VersionMessage.codec.Restores fun introduction => [introduction.userAgent.demand] := by
  refine Codec.Restores.congr ?_ fun _ => rfl
  exact ((Codec.restores_unsigned .little 4).pair (ServiceFlags.restores_codec.pair
    (Codec.restores_i64.pair (Address.restores_codec.pair (Address.restores_codec.pair
      (Codec.restores_u64.pair (Codec.restores_varString.pair
        ((Codec.restores_signed .little 4).pair Codec.restores_bool)))))))).map fun _ => rfl

namespace Reject

theorem serialize_messageCodec_eq_ok {message : Text} {bytes : Bytes} :
    messageCodec.serialize message = .ok bytes
      ↔ (∃ name, Command.checkName message = .ok name)
          ∧ Codec.varString.serialize message = .ok bytes := by
  rw [Codec.serialize, messageCodec, Emission.toExcept_ofExcept_eq_ok, exists_and_right]
  rfl

theorem restores_messageCodec : messageCodec.Restores fun message => [message.demand] where
  restored written allowed suffix :=
    Codec.restores_varString.restored (serialize_messageCodec_eq_ok.mp written).2 allowed suffix
  refused written refusal suffix :=
    Codec.restores_varString.refused (serialize_messageCodec_eq_ok.mp written).2 refusal suffix

theorem restores_codec :
    codec.Restores fun rejection => [rejection.message.demand, rejection.reason.demand] := by
  refine Codec.Restores.congr ?_ fun _ => rfl
  exact (restores_messageCodec.pair (RejectReason.restores_codec.pair
    (Codec.restores_varString.pair (Codec.restores_fixedBytes 32)))).map fun _ => rfl

end Reject

end PeerWire
