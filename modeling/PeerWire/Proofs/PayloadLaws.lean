import PeerWire.Message
import PeerWire.Proofs.RecordLaws

/-!
# Laws of payloads

The payload of a message is read back as the message, unless a demand inside it is
refused. Every demand of a payload is covered by its bytes: a text takes at least as
many bytes as it is long, and the elements of the sequences that messages carry are
charged no more than they take. A payload of at most four million bytes is therefore
never refused for what is inside.

The converse fails. The count in front of a sequence is written and not charged, so
that a payload slightly over the ceiling can hold a sequence within it.
-/

set_option autoImplicit false

namespace PeerWire

namespace Codec

variable {α β : Type}

/-! ## Widths -/

/-- Every value takes the same number of bytes. -/
def Spans (codec : Codec α) (size : Nat) : Prop :=
  ∀ (value : α) (bytes : Bytes), codec.serialize value = .ok bytes → bytes.length = size

theorem spans_unsigned (order : ByteOrder) (width : Nat) : (unsigned order width).Spans width := by
  intro value bytes written
  obtain ⟨number, -, -, rfl⟩ := serialize_unsigned_eq_ok.mp written
  exact order.length_write _ _

theorem spans_u64 : u64.Spans 8 := by
  intro value bytes written
  obtain ⟨-, rfl⟩ := serialize_u64_eq_ok.mp written
  exact ByteOrder.length_write _ _ _

theorem spans_fixedBytes (length : Nat) : (fixedBytes length).Spans length := by
  intro value bytes written
  obtain ⟨size, rfl⟩ := serialize_fixedBytes_eq_ok.mp written
  exact size

theorem Spans.refine {inner : Codec β} {size : Nat} (spans : inner.Spans size) (wire : α → β)
    (ofWire : β → Except ConsensusError α) : (inner.refine wire ofWire).Spans size := by
  intro value bytes written
  exact spans (wire value) bytes written

theorem Spans.map {inner : Codec β} {size : Nat} (spans : inner.Spans size) (wire : α → β)
    (ofWire : β → α) : (inner.map wire ofWire).Spans size := by
  rw [map_eq_refine]
  exact spans.refine wire _

theorem Spans.pair {first : Codec α} {second : Codec β} {firstSize secondSize : Nat}
    (firstSpans : first.Spans firstSize) (secondSpans : second.Spans secondSize) :
    (first.pair second).Spans (firstSize + secondSize) := by
  intro value bytes written
  obtain ⟨front, back, wroteFront, wroteBack, rfl⟩ := serialize_pair_eq_ok.mp written
  rw [List.length_append, firstSpans _ _ wroteFront, secondSpans _ _ wroteBack]

/-- Values of one width take it as often as there are values. -/
theorem Spans.length_serializeAll {element : Codec α} {size : Nat} (spans : element.Spans size)
    {values : List α} {bytes : Bytes} (written : element.serializeAll values = .ok bytes) :
    bytes.length = values.length * size := by
  induction values generalizing bytes with
  | nil =>
    cases written
    exact (Nat.zero_mul size).symm
  | cons value rest ih =>
    obtain ⟨front, back, wroteFront, wroteBack, rfl⟩ := serializeAll_cons_eq_ok.mp written
    rw [List.length_append, spans _ _ wroteFront, ih wroteBack, List.length_cons, Nat.succ_mul,
      Nat.add_comm]

/-! ## Covered demands -/

/-- No demand of a value exceeds the bytes that are written of it. -/
def Covers (codec : Codec α) (demands : α → List Demand) : Prop :=
  ∀ (value : α) (bytes : Bytes), codec.serialize value = .ok bytes →
    ∀ demand ∈ demands value, demand.room ≤ bytes.length

theorem covers_nothing (codec : Codec α) : codec.Covers fun _ => [] := by
  rintro value bytes - demand ⟨⟩

theorem Covers.map {inner : Codec β} {demands : β → List Demand} (covers : inner.Covers demands)
    (wire : α → β) (ofWire : β → α) :
    (inner.map wire ofWire).Covers fun value => demands (wire value) := by
  intro value bytes written
  exact covers (wire value) bytes written

theorem Covers.pair {first : Codec α} {second : Codec β} {firstDemands : α → List Demand}
    {secondDemands : β → List Demand} (firstCovers : first.Covers firstDemands)
    (secondCovers : second.Covers secondDemands) :
    (first.pair second).Covers fun value => firstDemands value.1 ++ secondDemands value.2 := by
  intro value bytes written demand inside
  obtain ⟨front, back, wroteFront, wroteBack, rfl⟩ := serialize_pair_eq_ok.mp written
  rw [List.length_append]
  rcases List.mem_append.mp inside with early | late
  · have covered := firstCovers _ _ wroteFront demand early
    omega
  · have covered := secondCovers _ _ wroteBack demand late
    omega

/-- The bytes of a text behind its length cover its demand. -/
theorem covers_varString : varString.Covers fun text => [text.demand] := by
  intro text bytes written demand inside
  cases List.mem_singleton.mp inside
  obtain ⟨-, written⟩ := serialize_varString_eq_ok.mp written
  rw [varBytes_eq_counted] at written
  obtain ⟨-, inside, contents, rfl⟩ := serialize_counted_eq_ok.mp written
  cases contents
  rw [Text.demand, Demand.room_bytes, List.length_append, Emission.bytes, Emission.chunk,
    List.flatten_singleton]
  exact Nat.le_add_left _ _

/-- The bytes of a sequence: its count, and the elements at their width. -/
theorem Spans.length_vector {element : Codec α} {size : Nat} (spans : element.Spans size)
    {values : List α} {bytes : Bytes} (written : element.vector.serialize values = .ok bytes) :
    bytes.length = (countOf values.length).toBytes.length + values.length * size := by
  rw [vector_eq_counted] at written
  obtain ⟨-, inside, contents, rfl⟩ := serialize_counted_eq_ok.mp written
  rw [List.length_append, spans.length_serializeAll contents]

/-- Elements that take what they are charged cover the demand of their sequence. -/
theorem Spans.covers_vector {element : Codec α} {size : Nat} (spans : element.Spans size)
    (charged : 0 < size) : element.vector.Covers fun values => [⟨values.length, size⟩] := by
  intro values bytes written demand inside
  cases List.mem_singleton.mp inside
  rw [spans.length_vector written, Demand.room, Nat.max_eq_right charged]
  exact Nat.le_add_left _ _

end Codec

/-! ## Widths of the records -/

theorem ServiceFlags.spans_codec : ServiceFlags.codec.Spans 8 :=
  Codec.spans_u64.map _ _

theorem Address.spans_groupsCodec : groupsCodec.Spans 16 := by
  intro groups bytes written
  obtain ⟨size, inside⟩ := serialize_groupsCodec_eq_ok.mp written
  rw [(Codec.spans_unsigned .big 2).length_serializeAll inside, size, groupCount]

theorem Address.spans_codec : Address.codec.Spans 26 :=
  (ServiceFlags.spans_codec.pair (spans_groupsCodec.pair (Codec.spans_unsigned .big 2))).map _ _

theorem Inventory.spans_codec : Inventory.codec.Spans 36 :=
  (((Codec.spans_unsigned .little 4).refine _ _).pair (Codec.spans_fixedBytes 32)).map _ _

theorem VersionMessage.covers_codec :
    VersionMessage.codec.Covers fun introduction => [introduction.userAgent.demand] :=
  ((Codec.covers_nothing _).pair ((Codec.covers_nothing _).pair ((Codec.covers_nothing _).pair
    ((Codec.covers_nothing _).pair ((Codec.covers_nothing _).pair ((Codec.covers_nothing _).pair
      (Codec.covers_varString.pair ((Codec.covers_nothing _).pair
        (Codec.covers_nothing _))))))))).map _ _

theorem Reject.covers_messageCodec : messageCodec.Covers fun message => [message.demand] := by
  intro message bytes written
  exact Codec.covers_varString message bytes (serialize_messageCodec_eq_ok.mp written).2

theorem Reject.covers_codec :
    codec.Covers fun rejection => [rejection.message.demand, rejection.reason.demand] :=
  (covers_messageCodec.pair ((Codec.covers_nothing _).pair
    (Codec.covers_varString.pair (Codec.covers_nothing _)))).map _ _

/-! ## Payloads -/

namespace NetworkMessage

/-- A peer with the time it was last seen. -/
def peerCodec : Codec (Number × Address) :=
  Codec.u32.pair Address.codec

/-- The demands of a message's payload, in the order of the wire. -/
def demands : NetworkMessage → List Demand
  | version introduction => [introduction.userAgent.demand]
  | addr peers => [⟨peers.length, peerCodec.elementSize.toNat⟩]
  | inv items | getdata items | notfound items => [Inventory.listDemand items]
  | reject rejection => [rejection.message.demand, rejection.reason.demand]
  | verack | getaddr | ping _ | pong _ | sendheaders => []

theorem spans_peerCodec : peerCodec.Spans 30 :=
  (Codec.spans_unsigned .little 4).pair Address.spans_codec

theorem restores_peerCodec : peerCodec.Restores fun _ => [] :=
  (Codec.restores_unsigned .little 4).pair Address.restores_codec

theorem restores_peersCodec :
    peersCodec.Restores fun peers => [⟨peers.length, peerCodec.elementSize.toNat⟩] := by
  refine (restores_peerCodec.vector (by decide +kernel)).congr fun peers => ?_
  rw [List.flatMap_eq_nil_iff.mpr fun _ _ => rfl]

theorem covers_peersCodec :
    peersCodec.Covers fun peers => [⟨peers.length, peerCodec.elementSize.toNat⟩] := by
  have width : peerCodec.elementSize.toNat = 30 := by decide +kernel
  rw [width]
  exact spans_peerCodec.covers_vector (by decide)

theorem covers_listCodec :
    Inventory.listCodec.Covers fun items => [Inventory.listDemand items] := by
  simp only [Inventory.listDemand, Inventory.elementSize_codec, Size.toNat]
  exact Inventory.spans_codec.covers_vector (by decide)

/-- A payload is at least as long as each of its demands. -/
theorem room_le_length {message : NetworkMessage} {payload : Bytes}
    (written : message.encodePayload = .ok payload) {demand : Demand}
    (inside : demand ∈ message.demands) : demand.room ≤ payload.length := by
  cases message with
  | version introduction => exact VersionMessage.covers_codec _ _ written _ inside
  | addr peers => exact covers_peersCodec _ _ written _ inside
  | inv items => exact covers_listCodec _ _ written _ inside
  | getdata items => exact covers_listCodec _ _ written _ inside
  | notfound items => exact covers_listCodec _ _ written _ inside
  | reject rejection => exact Reject.covers_codec _ _ written _ inside
  | verack => cases inside
  | getaddr => cases inside
  | ping nonce => cases inside
  | pong nonce => cases inside
  | sendheaders => cases inside

/-- What is written of a value is read as the message that carries it, or refused. -/
theorem map_deserialize {α : Type} {codec : Codec α} {demands : α → List Demand}
    (restores : codec.Restores demands) {value : α} {payload : Bytes}
    (written : codec.serialize value = .ok payload) (message : α → NetworkMessage) :
    (codec.decode.deserialize payload).map message
      = match Demand.refusal? (demands value) with
        | none => .ok (message value)
        | some error => .error (.consensus error) := by
  rw [restores.deserialize_eq written]
  cases Demand.refusal? (demands value) <;> rfl

/-- A payload is read back as its message, or refused for what is inside. -/
theorem ofPayload_eq {message : NetworkMessage} {payload : Bytes}
    (written : message.encodePayload = .ok payload) :
    ofPayload message.command payload
      = match Demand.refusal? message.demands with
        | none => .ok message
        | some error => .error (.consensus error) := by
  cases message with
  | version introduction => exact map_deserialize VersionMessage.restores_codec written version
  | addr peers => exact map_deserialize restores_peersCodec written addr
  | inv items => exact map_deserialize Inventory.restores_listCodec written inv
  | getdata items => exact map_deserialize Inventory.restores_listCodec written getdata
  | notfound items => exact map_deserialize Inventory.restores_listCodec written notfound
  | ping nonce => exact map_deserialize Codec.restores_u64 written ping
  | pong nonce => exact map_deserialize Codec.restores_u64 written pong
  | reject rejection => exact map_deserialize Reject.restores_codec written reject
  | verack => cases written; rfl
  | getaddr => cases written; rfl
  | sendheaders => cases written; rfl

end NetworkMessage

end PeerWire
