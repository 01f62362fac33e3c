import PeerWire.Proofs.FormatLaws
import PeerWire.Proofs.Starvation

/-!
# Reading is local

What a format reads depends on the bytes it takes and on nothing behind them. A value
that was read is read again from its own bytes, whatever follows; cut anywhere inside
them, the input is reported as ended. An error of any other kind stays when bytes are
added. So a caller that holds the front of a longer input can rely on every answer but
one, and that one tells it to come back with more.

How far the one answer can be relied on is a matter of the leaves. Every leaf but a raw
message is decisive: it reports that the input has ended only when it has taken all of
it. A raw message reads its payload as a byte string of its own, and the end of that
string is no end of the input.
-/

set_option autoImplicit false

attribute [local instance (high)] instPowNat

namespace PeerWire

/-! ## Decisive codecs -/

namespace Codec

variable {α β : Type}

/-- Reading reports the end of the input only when it starves. -/
structure Decisive (codec : Codec α) : Prop where
  decode : codec.decode.Decisive

theorem decisive_unsigned (order : ByteOrder) (width : Nat) : (unsigned order width).Decisive :=
  ⟨fun _ _ => trivial⟩

theorem decisive_signed (order : ByteOrder) (width : Nat) : (signed order width).Decisive :=
  ⟨fun _ _ => trivial⟩

theorem decisive_u64 : u64.Decisive :=
  ⟨fun _ _ => trivial⟩

theorem decisive_i64 : i64.Decisive :=
  ⟨fun _ _ => trivial⟩

theorem decisive_bool : bool.Decisive :=
  ⟨fun _ _ => trivial⟩

theorem decisive_fixedBytes (length : Nat) : (fixedBytes length).Decisive :=
  ⟨fun _ _ => trivial⟩

/-- Rejecting values keeps a codec decisive, unless the input is given as the reason. -/
theorem Decisive.refine {inner : Codec β} (decisive : inner.Decisive) (wire : α → β)
    {ofWire : β → Except ConsensusError α}
    (other : ∀ onWire problem, ofWire onWire ≠ .error (.io problem)) :
    (inner.refine wire ofWire).Decisive :=
  ⟨decisive.decode.bind fun onWire => Decoder.decisive_ofExcept (other onWire)⟩

theorem Decisive.map {inner : Codec β} (decisive : inner.Decisive) (wire : α → β)
    (ofWire : β → α) : (inner.map wire ofWire).Decisive :=
  ⟨decisive.decode.bind fun _ => trivial⟩

theorem Decisive.pair {first : Codec α} {second : Codec β} (firstDecisive : first.Decisive)
    (secondDecisive : second.Decisive) : (first.pair second).Decisive :=
  ⟨firstDecisive.decode.bind fun _ => secondDecisive.decode.bind fun _ => trivial⟩

theorem decisive_coded {width : Nat} {all : List α} {code : α → Nat}
    {unknown : Number → ConsensusError} (other : ∀ number problem, unknown number ≠ .io problem) :
    (coded width all code unknown).Decisive := by
  refine (decisive_unsigned .little width).refine _ ?_
  intro number problem blamed
  cases found : ofCode? all code number with
  | some value =>
    rw [found] at blamed
    cases blamed
  | none =>
    rw [found] at blamed
    exact other number problem (Except.error.inj blamed)

end Codec

/-! ## Magnitudes and counts -/

namespace VarInt

theorem decisive_decodeWide (width shorter : Nat) : (decodeWide width shorter).Decisive := by
  intro bytes _
  dsimp only
  split
  · trivial
  · trivial

theorem decisive_decode : decode.Decisive := by
  intro bytes _
  dsimp only
  split
  · exact decisive_decodeWide 8 0xffffffff
  · split
    · exact decisive_decodeWide 4 0xffff
    · split
      · exact decisive_decodeWide 2 0xfc
      · trivial

theorem decisive_codec : codec.Decisive :=
  ⟨decisive_decode⟩

end VarInt

namespace Codec

variable {α : Type}

theorem withinCeiling_ne_io (count elementSize : Nat) (problem : IoProblem) :
    withinCeiling count elementSize ≠ .error (.io problem) := by
  intro blamed
  rw [withinCeiling] at blamed
  split at blamed
  · cases blamed
  · split at blamed
    · cases blamed
    · cases blamed

theorem decisive_checkAllocation (count : Nat) (size : Size) :
    (Decoder.ofResult (checkAllocation count size)).Decisive := by
  cases size with
  | infinite => trivial
  | finite bytes =>
    rw [Decoder.ofResult_checkAllocation]
    exact Decoder.decisive_ofExcept (withinCeiling_ne_io count bytes)

theorem decisive_decodeCount (elementSize : Size) : (decodeCount elementSize).Decisive :=
  VarInt.decisive_decode.bind fun _ => decisive_checkAllocation _ _

theorem Decisive.vector {element : Codec α} (decisive : element.Decisive) :
    element.vector.Decisive :=
  ⟨(decisive_decodeCount element.elementSize).bind fun count => decisive.decode.times count⟩

theorem decisive_varBytes : varBytes.Decisive :=
  ⟨(decisive_decodeCount (.finite 1)).bind fun _ _ _ => trivial⟩

theorem decisive_varString : varString.Decisive := by
  refine ⟨decisive_varBytes.decode.bind fun bytes => ?_⟩
  split
  · trivial
  · trivial

theorem decisive_checkedData : checkedData.Decisive := by
  constructor
  intro field _
  refine (decisive_checkAllocation _ _).bind fun length => ?_
  intro claimed _ data _
  dsimp only
  split
  · trivial
  · trivial

end Codec

/-! ## Records -/

namespace Command

theorem decisive_codec : codec.Decisive := by
  constructor
  intro field _
  refine Decoder.decisive_ofExcept fun problem blamed => ?_
  rw [nameOfField] at blamed
  split at blamed
  · cases blamed
  · split at blamed
    · cases blamed
    · cases blamed

end Command

theorem Network.decisive_codec : codec.Decisive := by
  rw [codec_eq_coded]
  exact Codec.decisive_coded fun _ _ => nofun

theorem InventoryType.decisive_codec : codec.Decisive := by
  rw [codec_eq_coded]
  exact Codec.decisive_coded fun _ _ => nofun

theorem RejectReason.decisive_codec : codec.Decisive := by
  rw [codec_eq_coded]
  exact Codec.decisive_coded fun _ _ => nofun

theorem ServiceFlags.decisive_codec : codec.Decisive :=
  Codec.decisive_u64.map _ _

theorem Address.decisive_groupsCodec : groupsCodec.Decisive :=
  ⟨(Codec.decisive_unsigned .big 2).decode.times groupCount⟩

theorem Address.decisive_codec : codec.Decisive :=
  (ServiceFlags.decisive_codec.pair
    (decisive_groupsCodec.pair (Codec.decisive_unsigned .big 2))).map _ _

theorem Inventory.decisive_codec : codec.Decisive :=
  (InventoryType.decisive_codec.pair (Codec.decisive_fixedBytes 32)).map _ _

theorem Inventory.decisive_listCodec : listCodec.Decisive :=
  decisive_codec.vector

theorem VersionMessage.decisive_codec : codec.Decisive :=
  ((Codec.decisive_unsigned .little 4).pair (ServiceFlags.decisive_codec.pair
    (Codec.decisive_i64.pair (Address.decisive_codec.pair (Address.decisive_codec.pair
      (Codec.decisive_u64.pair (Codec.decisive_varString.pair
        ((Codec.decisive_signed .little 4).pair Codec.decisive_bool)))))))).map _ _

theorem Reject.decisive_messageCodec : messageCodec.Decisive :=
  ⟨Codec.decisive_varString.decode⟩

theorem Reject.decisive_codec : codec.Decisive :=
  (decisive_messageCodec.pair (RejectReason.decisive_codec.pair
    (Codec.decisive_varString.pair (Codec.decisive_fixedBytes 32)))).map _ _

/-! ## Formats -/

theorem Codec.Decisive.under {α : Type} {inner : Codec α} (decisive : inner.Decisive)
    {objects : Bool} (stray : objects = false → Except Fault α) (name : FieldName) :
    (inner.under stray name).Decisive := by
  cases name with
  | ordinary text apart => exact decisive
  | prototype => exact ⟨decisive.decode.bind fun _ => trivial⟩

/-- Whether a leaf reads the input alone, and no byte string inside it. -/
def Format.isUnframed : Format → Bool
  | .rawMessage => false
  | _ => true

mutual

theorem Format.decisive : (format : Format) → format.every Format.isUnframed = true →
    format.codec.Decisive
  | .u8, _ => Codec.decisive_unsigned .little 1
  | .u16, _ => Codec.decisive_unsigned .little 2
  | .u32, _ => Codec.decisive_unsigned .little 4
  | .u64, _ => Codec.decisive_u64
  | .i8, _ => Codec.decisive_signed .little 1
  | .i16, _ => Codec.decisive_signed .little 2
  | .i32, _ => Codec.decisive_signed .little 4
  | .i64, _ => Codec.decisive_i64
  | .u16Network, _ => Codec.decisive_unsigned .big 2
  | .truth false, _ => Codec.decisive_bool
  | .truth true, _ => Codec.decisive_bool.map _ _
  | .varInt, _ => VarInt.decisive_codec
  | .fixedBytes length, _ => Codec.decisive_fixedBytes length
  | .varBytes, _ => Codec.decisive_varBytes
  | .varString, _ => Codec.decisive_varString
  | .commandString, _ => Command.decisive_codec
  | .checkedData, _ => Codec.decisive_checkedData
  | .network, _ => Network.decisive_codec
  | .serviceFlags, _ => ServiceFlags.decisive_codec
  | .inventoryType, _ => InventoryType.decisive_codec
  | .rejectReason, _ => RejectReason.decisive_codec
  | .address, _ => Address.decisive_codec
  | .inventory, _ => Inventory.decisive_codec
  | .inventoryList, _ => Inventory.decisive_listCodec
  | .versionMessage, _ => VersionMessage.decisive_codec
  | .reject, _ => Reject.decisive_codec
  | .rawMessage, unframed => by cases unframed
  | .broken .., _ => ⟨trivial⟩
  | .vector element, unframed => (element.decisive unframed).vector
  | .pair first second, unframed => by
    obtain ⟨left, right⟩ := Bool.and_eq_true_iff.mp unframed
    exact (first.decisive left).pair (second.decisive right)
  | .record fields, unframed => fields.decisive unframed (.finite 0)

theorem Fields.decisive : (fields : Fields) → fields.every Format.isUnframed = true →
    (earlier : Size) → (fields.codecBehind earlier).Decisive
  | .nil, _, _ => ⟨trivial⟩
  | .cons name format rest, unframed, earlier => by
    obtain ⟨here, behind⟩ := Bool.and_eq_true_iff.mp unframed
    have first := (format.decisive here).under format.stray name
    have others := rest.decisive behind (earlier + format.codec.elementSize)
    exact ⟨(first.pair others).decode⟩

end

/-! ## Longer and shorter inputs -/

namespace Format

/-- Reading from the front of a byte string is settled by the bytes it takes. A value is
read again from its own bytes in front of any others, and from no fewer. A failure other
than an input error stays when bytes are added. An input error of a format without raw
messages comes when all bytes have been taken. -/
theorem deserializePartial_local (format : Format) (bytes : Bytes) :
    (∀ value consumed, format.codec.decode.deserializePartial bytes = .ok ⟨value, consumed⟩ →
        consumed ≤ bytes.length
          ∧ (∀ suffix, format.codec.decode.deserializePartial (bytes.take consumed ++ suffix)
              = .ok ⟨value, consumed⟩)
          ∧ ∀ length, length < consumed → ∃ problem,
              format.codec.decode.deserializePartial (bytes.take length)
                = .error (.consensus (.io problem)))
      ∧ (∀ failure, (∀ problem, failure ≠ .consensus (.io problem)) →
          format.codec.decode.deserializePartial bytes = .error failure →
            ∀ suffix, format.codec.decode.deserializePartial (bytes ++ suffix) = .error failure)
      ∧ (format.every isUnframed = true → ∀ problem,
          format.codec.decode.deserializePartial bytes = .error (.consensus (.io problem)) →
            (format.codec.decode.run (.ofSource (Cursor.ofBytes bytes))).2.consumed
              = bytes.length) := by
  refine ⟨?_, ?_, ?_⟩
  · intro value consumed read
    refine ⟨(Decoder.parse_of_deserializePartial read).1,
      Decoder.deserializePartial_take_append read, ?_⟩
    intro length cut
    obtain ⟨needed, got, failed⟩ := Decoder.exists_deserializePartial_take read cut
    exact ⟨.exhausted needed got, failed⟩
  · intro failure other failed
    exact Decoder.deserializePartial_append_of_error failed other
  · intro unframed problem failed
    have parsed := Decoder.deserializePartial_eq_error_iff.mp failed
    exact Decoder.consumed_of_starves ((format.decisive unframed).decode.starves_of_io parsed)

/-- Two magnitudes and a label are read in front of other bytes, but not without their
last byte. A magnitude in a longer form than it needs is refused in front of any bytes.
Two magnitudes of which one is missing leave nothing. -/
theorem deserializePartial_local_ledger :
    (∀ suffix, ledger.codec.decode.deserializePartial (ledgerBytes ++ suffix)
        = .ok ⟨ledgerValue, 14⟩)
      ∧ (∃ problem, ledger.codec.decode.deserializePartial (ledgerBytes.take 13)
          = .error (.consensus (.io problem)))
      ∧ (∀ suffix, ledger.codec.decode.deserializePartial ([2, 0xfd, 1, 0] ++ suffix)
          = .error (.consensus .nonMinimalVarInt))
      ∧ (ledger.codec.decode.run (.ofSource (Cursor.ofBytes [2, 5]))).2.consumed = 2 := by
  have read : ledger.codec.decode.deserializePartial ledgerBytes = .ok ⟨ledgerValue, 14⟩ := by
    rw [Decoder.deserializePartial_eq]
    rfl
  have refused : ledger.codec.decode.deserializePartial [2, 0xfd, 1, 0]
      = .error (.consensus .nonMinimalVarInt) := by
    rw [Decoder.deserializePartial_eq]
    rfl
  have ended : ledger.codec.decode.deserializePartial [2, 5]
      = .error (.consensus (.io (.exhausted 1 0))) := by
    rw [Decoder.deserializePartial_eq]
    rfl
  obtain ⟨-, again, shorter⟩ := (deserializePartial_local ledger ledgerBytes).1 _ _ read
  refine ⟨again, shorter 13 (by decide), ?_, ?_⟩
  · exact (deserializePartial_local ledger [2, 0xfd, 1, 0]).2.1 _ nofun refused
  · exact (deserializePartial_local ledger [2, 5]).2.2 rfl _ ended

end Format

end PeerWire
