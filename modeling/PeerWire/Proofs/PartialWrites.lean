import PeerWire.Proofs.FrameLaws
import PeerWire.Proofs.Leaves
import PeerWire.Proofs.WriterSessions

/-!
# What a value that cannot be written leaves behind

A value is written part by part. The smallest parts are written as a whole or not at all: the
fields of a record, the elements of a sequence and the count in front of them, the groups of an
address, and in a raw message the magic, the command and the payload. `Format.parts` lists them
in the order of the wire, and writing a value is writing these (`Format.writtenInParts`). A check
that a value does not pass is a part of its own, which cannot be written; so is what a record has
lost, if its encoder finds no value in its place.

So a value that cannot be written leaves exactly what was written of the parts in front of the
first that cannot be (`failed_encode_leaves_front`). Whatever has the same parts in front is
written with the same bytes in front, at any depth. What this comes to for one pair, one record,
one sequence, one address and one raw message are consequences of how emissions are put behind
each other.
-/

set_option autoImplicit false

namespace PeerWire

/-! ## Emissions that fail -/

namespace Emission

theorem andThen_of_error {first : Emission} {fault : Fault} (failed : first.toExcept = .error fault)
    (second : Emission) : first.andThen second = first := by
  obtain ⟨chunks, outcome⟩ := first
  cases outcome with
  | ok count => cases failed
  | error met => rfl

theorem bytes_andThen_of_ok {first : Emission} {front : Bytes}
    (written : first.toExcept = .ok front) (second : Emission) :
    (first.andThen second).bytes = front ++ second.bytes := by
  obtain ⟨chunks, outcome⟩ := first
  cases outcome with
  | error fault => cases written
  | ok count =>
    cases written
    rw [ok_andThen]
    exact List.flatten_append

/-- What stands behind an emission that fails is not written. -/
theorem all_of_split {front back : List Emission} {bad : Emission} {fault : Fault}
    (failed : bad.toExcept = .error fault) :
    all (front ++ bad :: back) = (all front).andThen bad := by
  rw [all_append, all_cons, andThen_of_error failed]

/-- Nothing is written of it if it fails. -/
def IsWhole (emission : Emission) : Prop :=
  ∀ fault, emission.toExcept = .error fault → emission.bytes = []

theorem IsAtomic.isWhole {emission : Emission} (atomic : emission.IsAtomic) : emission.IsWhole := by
  intro fault failed
  rcases atomic with ⟨bytes, rfl⟩ | ⟨fault, rfl⟩
  · rw [toExcept_chunk] at failed
    cases failed
  · rfl

/-- Nothing fails behind the first emission if the second has bytes. -/
theorem IsWhole.andThen {first second : Emission} {back : Bytes} (whole : first.IsWhole)
    (written : second.toExcept = .ok back) : (first.andThen second).IsWhole := by
  intro fault failed
  cases front : first.toExcept with
  | ok bytes =>
    rw [toExcept_andThen_of_ok front, written] at failed
    cases failed
  | error met =>
    rw [andThen_of_error front]
    exact whole met front

end Emission

/-! ## What is left -/

namespace Codec

variable {α β : Type}

/-- Writing a value to a sink that grows fails, and bytes are left behind what it held. -/
def LeavesBehind (codec : Codec α) (value : α) (left : Bytes) : Prop :=
  ∀ sink : GrowableSink, ∃ failure after,
    (codec.encode value).deliver sink = (.error failure, after)
      ∧ after.toBytes = sink.toBytes ++ left

/-- A sink that grows has taken all chunks when a fault is met. -/
theorem of_deliver_eq_error {codec : Codec α} {value : α} {sink after : GrowableSink}
    {failure : Failure} (failed : (codec.encode value).deliver sink = (.error failure, after)) :
    ∃ fault, failure = .fault fault ∧ codec.serialize value = .error fault
      ∧ after.toBytes = sink.toBytes ++ (codec.encode value).bytes := by
  obtain ⟨reached, gathered, outcome⟩ := (codec.encode value).exists_deliver_growable sink
  rw [failed] at outcome
  rw [serialize, Emission.toExcept]
  cases met : (codec.encode value).outcome with
  | ok count =>
    rw [met] at outcome
    cases outcome
  | error fault =>
    rw [met] at outcome
    cases outcome
    exact ⟨fault, rfl, rfl, gathered⟩

theorem leavesBehind_iff {codec : Codec α} {value : α} {left : Bytes} :
    codec.LeavesBehind value left
      ↔ (∃ fault, codec.serialize value = .error fault) ∧ (codec.encode value).bytes = left := by
  constructor
  · intro leaves
    obtain ⟨failure, after, failed, holds⟩ := leaves GrowableSink.empty
    obtain ⟨fault, -, refused, gathered⟩ := of_deliver_eq_error failed
    exact ⟨⟨fault, refused⟩, List.append_cancel_left (gathered.symm.trans holds)⟩
  · rintro ⟨⟨fault, refused⟩, rfl⟩ sink
    obtain ⟨after, gathered, outcome⟩ := (codec.encode value).exists_deliver_growable sink
    rw [serialize, Emission.toExcept] at refused
    cases met : (codec.encode value).outcome with
    | ok count =>
      rw [met] at refused
      cases refused
    | error fault =>
      rw [met] at outcome
      exact ⟨_, after, outcome, gathered⟩

theorem LeavesBehind.of_andThen_left {codec : Codec α} {value : α} {inner : Codec β} {part : β}
    {second : Emission} {left : Bytes} (leaves : inner.LeavesBehind part left)
    (encoded : codec.encode value = (inner.encode part).andThen second) :
    codec.LeavesBehind value left := by
  obtain ⟨⟨fault, failed⟩, rfl⟩ := leavesBehind_iff.mp leaves
  have same := Emission.andThen_of_error failed second
  rw [leavesBehind_iff, serialize, encoded, same]
  exact ⟨⟨fault, failed⟩, rfl⟩

theorem LeavesBehind.of_andThen_right {codec : Codec α} {value : α} {inner : Codec β} {part : β}
    {first : Emission} {front left : Bytes} (written : first.toExcept = .ok front)
    (leaves : inner.LeavesBehind part left)
    (encoded : codec.encode value = first.andThen (inner.encode part)) :
    codec.LeavesBehind value (front ++ left) := by
  obtain ⟨⟨fault, failed⟩, rfl⟩ := leavesBehind_iff.mp leaves
  have behind : (first.andThen (inner.encode part)).toExcept = .error fault := by
    rw [Emission.toExcept_andThen_of_ok written]
    exact congrArg (Except.map _) failed
  rw [leavesBehind_iff, serialize, encoded]
  exact ⟨⟨fault, behind⟩, Emission.bytes_andThen_of_ok written _⟩

end Codec

/-! ## Parts in a row -/

namespace LeafValue

/-- What one part after the other comes to. -/
def encodeAll (parts : List LeafValue) : Emission :=
  .all (parts.map encode)

theorem encodeAll_singleton (format : Format) (value : format.Val) :
    encodeAll [⟨format, value⟩] = format.codec.encode value :=
  Emission.andThen_nothing _

theorem encodeAll_append (front back : List LeafValue) :
    encodeAll (front ++ back) = (encodeAll front).andThen (encodeAll back) := by
  rw [encodeAll, List.map_append, Emission.all_append]
  rfl

theorem toExcept_encodeAll {parts : List LeafValue} {pieces : List Bytes}
    (written : parts.mapM serialize = .ok pieces) :
    (encodeAll parts).toExcept = .ok pieces.flatten := by
  rw [encodeAll, Emission.toExcept_all, List.mapM_map]
  exact congrArg (Except.map List.flatten) written

/-- Parts in a row are written up to the first that cannot be, and of that what it leaves. -/
theorem encodeAll_of_split {front : List LeafValue} (back : List LeafValue) {bad : LeafValue}
    {pieces : List Bytes} {fault : Fault} (written : front.mapM serialize = .ok pieces)
    (failed : bad.serialize = .error fault) :
    (encodeAll (front ++ bad :: back)).toExcept = .error fault
      ∧ (encodeAll (front ++ bad :: back)).bytes = pieces.flatten ++ bad.encode.bytes := by
  have together := toExcept_encodeAll written
  have split : encodeAll (front ++ bad :: back) = (encodeAll front).andThen bad.encode := by
    rw [encodeAll, List.map_append, List.map_cons]
    exact Emission.all_of_split failed
  rw [split, Emission.toExcept_andThen_of_ok together, Emission.bytes_andThen_of_ok together]
  exact ⟨congrArg (Except.map _) failed, rfl⟩

/-- The parts in front of the first that cannot be written. -/
def front (parts : List LeafValue) : List LeafValue :=
  parts.takeWhile fun part => part.serialize.isOk

theorem front_cons_of_ok {part : LeafValue} {piece : Bytes} (written : part.serialize = .ok piece)
    (rest : List LeafValue) : front (part :: rest) = part :: front rest := by
  have passes : part.serialize.isOk = true := by
    rw [written]
    rfl
  exact List.takeWhile_cons_of_pos passes

theorem front_cons_of_error {part : LeafValue} {fault : Fault}
    (failed : part.serialize = .error fault) (rest : List LeafValue) :
    front (part :: rest) = [] := by
  have stops : ¬ part.serialize.isOk = true := by
    rw [failed]
    exact Bool.false_ne_true
  exact List.takeWhile_cons_of_neg stops

/-- Behind the front stands the part with the fault that the parts in a row fail with. -/
theorem exists_split_of_error {parts : List LeafValue} {fault : Fault}
    (failed : (encodeAll parts).toExcept = .error fault) :
    ∃ bad back pieces, parts = front parts ++ bad :: back
      ∧ (front parts).mapM serialize = .ok pieces ∧ bad.serialize = .error fault := by
  induction parts with
  | nil => cases failed
  | cons part rest ih =>
    have row : encodeAll (part :: rest) = part.encode.andThen (encodeAll rest) := rfl
    cases here : part.encode.toExcept with
    | error met =>
      rw [row, Emission.toExcept_andThen_of_error here] at failed
      cases failed
      rw [front_cons_of_error here]
      exact ⟨part, rest, [], rfl, rfl, here⟩
    | ok piece =>
      rw [row, Emission.toExcept_andThen_of_ok here] at failed
      cases behind : (encodeAll rest).toExcept with
      | ok bytes =>
        rw [behind] at failed
        cases failed
      | error met =>
        rw [behind] at failed
        cases failed
        obtain ⟨bad, back, pieces, split, written, stopped⟩ := ih behind
        have wrote : part.serialize = .ok piece := here
        rw [front_cons_of_ok here]
        refine ⟨bad, back, piece :: pieces, congrArg (part :: ·) split, ?_, stopped⟩
        rw [List.mapM_cons, wrote, written]
        rfl

end LeafValue

/-! ## The parts of a value -/

namespace LeafValue

variable {α : Type}

/-- A check that was not passed, as a part that cannot be written. -/
def refused (fault : Fault) : LeafValue :=
  ⟨.broken 0 fault fault, ()⟩

/-- The parts of a checked value, or the check if it was not passed. -/
def checked (result : Except Fault α) (parts : α → List LeafValue) : List LeafValue :=
  match result with
  | .ok value => parts value
  | .error fault => [refused fault]

theorem encodeAll_checked (result : Except Fault α) (parts : α → List LeafValue) :
    encodeAll (checked result parts) = .ofExcept result fun value => encodeAll (parts value) := by
  cases result <;> rfl

theorem encodeAll_checked_singleton (format : Format) (result : Except Fault format.Val) :
    encodeAll (checked result fun value => [⟨format, value⟩])
      = .ofExcept result format.codec.encode := by
  rw [encodeAll_checked]
  exact congrArg (Emission.ofExcept _) (funext fun value => encodeAll_singleton format value)

/-- The count in front of a sequence, if it is safe. -/
def count (length : Nat) : List LeafValue :=
  checked (VarInt.ofNumber (.int length)) fun magnitude => [⟨.varInt, magnitude⟩]

/-- The parts of a sequence: the count, and the parts of each element. -/
def sequence (parts : α → List LeafValue) (values : List α) : List LeafValue :=
  count values.length ++ values.flatMap parts

end LeafValue

/-- The parts of eight groups. -/
def Address.groupParts (groups : List Number) : List LeafValue :=
  if groups.length = groupCount then groups.map fun group => ⟨.u16Network, group⟩
  else [.refused (.wrongGroupCount groups.length)]

def Address.parts (address : Address) : List LeafValue :=
  [⟨.serviceFlags, address.services⟩]
    ++ (groupParts address.groups ++ [⟨.u16Network, address.port⟩])

def Inventory.parts (item : Inventory) : List LeafValue :=
  [⟨.inventoryType, item.kind⟩, ⟨.fixedBytes 32, item.hash⟩]

def VersionMessage.parts (message : VersionMessage) : List LeafValue :=
  [⟨.u32, message.version⟩, ⟨.serviceFlags, message.services⟩, ⟨.i64, message.timestamp⟩]
    ++ (message.receiver.parts ++ (message.sender.parts
      ++ [⟨.u64, message.nonce⟩, ⟨.varString, message.userAgent⟩, ⟨.i32, message.startHeight⟩,
        ⟨.truth false, message.relay⟩]))

/-- The parts of a rejection; its command is checked before any of it is written. -/
def Reject.parts (rejection : Reject) : List LeafValue :=
  LeafValue.checked (Command.checkName rejection.message)
      (fun _ => [⟨.varString, rejection.message⟩])
    ++ [⟨.rejectReason, rejection.code⟩, ⟨.varString, rejection.reason⟩,
      ⟨.fixedBytes 32, rejection.hash⟩]

/-- The parts of a raw message; its payload is put together before any of it is written. -/
def RawMessage.parts (raw : RawMessage) : List LeafValue :=
  [⟨.u32, raw.magic⟩, ⟨.commandString, raw.payload.command.name⟩]
    ++ LeafValue.checked raw.payload.encodePayload fun data => [⟨.checkedData, data⟩]

mutual

/-- The smallest parts of a value, in the order of the wire. -/
def Format.parts : (format : Format) → format.Val → List LeafValue
  | .vector element, values => LeafValue.sequence (fun value => element.parts value) values
  | .pair first second, value => first.parts value.1 ++ second.parts value.2
  | .record fields, value => fields.parts value
  | .address, value => value.parts
  | .inventory, value => value.parts
  | .inventoryList, values => LeafValue.sequence Inventory.parts values
  | .versionMessage, value => value.parts
  | .reject, value => value.parts
  | .rawMessage, value => value.parts
  | whole, value => [⟨whole, value⟩]

/-- The parts of the values that are found in the fields of a record. -/
def Fields.parts : (fields : Fields) → fields.Val → List LeafValue
  | .nil, _ => []
  | .cons name format rest, value =>
    LeafValue.checked (name.found format.stray value.1) (fun value => format.parts value)
      ++ rest.parts value.2

end

/-- Whether a format has no smaller parts. -/
def Format.isWhole : Format → Bool
  | .vector _ | .pair .. | .record _ | .address | .inventory | .inventoryList => false
  | .versionMessage | .reject | .rawMessage => false
  | _ => true

/-! ## Writing in parts -/

namespace Codec

variable {α β : Type}

/-- Values are written part by part, and no part has smaller ones. -/
structure WrittenInParts (codec : Codec α) (parts : α → List LeafValue) : Prop where
  encode : ∀ value, codec.encode value = LeafValue.encodeAll (parts value)
  whole : ∀ value, ∀ part ∈ parts value, part.1.isWhole = true

theorem writtenInParts_whole (format : Format) (whole : format.isWhole = true) :
    format.codec.WrittenInParts fun value => [⟨format, value⟩] where
  encode value := (LeafValue.encodeAll_singleton format value).symm
  whole value part inside := by
    rw [List.mem_singleton] at inside
    rw [inside]
    exact whole

theorem WrittenInParts.pair {first : Codec α} {second : Codec β} {firstParts : α → List LeafValue}
    {secondParts : β → List LeafValue} (firstInParts : first.WrittenInParts firstParts)
    (secondInParts : second.WrittenInParts secondParts) :
    (first.pair second).WrittenInParts fun value => firstParts value.1 ++ secondParts value.2 where
  encode value := by
    rw [LeafValue.encodeAll_append, ← firstInParts.encode, ← secondInParts.encode]
    rfl
  whole value part inside := by
    rcases List.mem_append.mp inside with front | back
    · exact firstInParts.whole value.1 part front
    · exact secondInParts.whole value.2 part back

theorem WrittenInParts.map {inner : Codec β} {parts : β → List LeafValue}
    (inParts : inner.WrittenInParts parts) (wire : α → β) (ofWire : β → α) :
    (inner.map wire ofWire).WrittenInParts fun value => parts (wire value) where
  encode value := inParts.encode (wire value)
  whole value := inParts.whole (wire value)

theorem WrittenInParts.all {element : Codec α} {parts : α → List LeafValue}
    (inParts : element.WrittenInParts parts) (values : List α) :
    .all (values.map element.encode) = LeafValue.encodeAll (values.flatMap parts) := by
  induction values with
  | nil => rfl
  | cons value rest ih =>
    rw [List.map_cons, Emission.all_cons, ih, inParts.encode, List.flatMap_cons,
      LeafValue.encodeAll_append]

/-- A check that was not passed has no smaller parts. -/
theorem isWhole_of_mem_checked {result : Except Fault α}
    {parts : α → List LeafValue} (whole : ∀ value, ∀ part ∈ parts value, part.1.isWhole = true) :
    ∀ part ∈ LeafValue.checked result parts, part.1.isWhole = true := by
  intro part inside
  cases result with
  | ok value => exact whole value part inside
  | error fault =>
    rw [LeafValue.checked, List.mem_singleton] at inside
    rw [inside]
    rfl

/-- A check in front of a value that is written in parts. -/
theorem WrittenInParts.checked {codec : Codec α} {inner : Codec β} {parts : β → List LeafValue}
    (inParts : inner.WrittenInParts parts) {check : α → Except Fault β}
    (encode : ∀ value, codec.encode value = .ofExcept (check value) inner.encode) :
    codec.WrittenInParts fun value => LeafValue.checked (check value) parts where
  encode value := by
    rw [encode, LeafValue.encodeAll_checked]
    exact congrArg (Emission.ofExcept _) (funext inParts.encode)
  whole _ := isWhole_of_mem_checked inParts.whole

theorem WrittenInParts.vector {element : Codec α} {parts : α → List LeafValue}
    (inParts : element.WrittenInParts parts) :
    element.vector.WrittenInParts (LeafValue.sequence parts) where
  encode values := by
    rw [vector_eq_counted, LeafValue.sequence, LeafValue.encodeAll_append, LeafValue.count,
      LeafValue.encodeAll_checked_singleton .varInt, ← inParts.all]
    rfl
  whole values part inside := by
    rcases List.mem_append.mp inside with front | behind
    · exact isWhole_of_mem_checked (writtenInParts_whole .varInt rfl).whole part front
    · obtain ⟨value, -, among⟩ := List.mem_flatMap.mp behind
      exact inParts.whole value part among

end Codec

open Codec

namespace Address

theorem writtenInParts_groups : groupsCodec.WrittenInParts groupParts where
  encode groups := by
    have each := (writtenInParts_whole .u16Network rfl).all groups
    rw [← List.map_eq_flatMap] at each
    rw [groupsCodec, groupParts]
    dsimp only
    split
    · rw [Emission.addUp_zero]
      exact each
    · rfl
  whole groups part inside := by
    rw [groupParts] at inside
    split at inside
    · obtain ⟨group, -, rfl⟩ := List.mem_map.mp inside
      rfl
    · rw [List.mem_singleton] at inside
      rw [inside]
      rfl

theorem writtenInParts : codec.WrittenInParts parts :=
  ((writtenInParts_whole .serviceFlags rfl).pair
    (writtenInParts_groups.pair (writtenInParts_whole .u16Network rfl))).map _ _

end Address

theorem Inventory.writtenInParts : codec.WrittenInParts parts :=
  ((writtenInParts_whole .inventoryType rfl).pair (writtenInParts_whole (.fixedBytes 32) rfl)).map
    _ _

theorem VersionMessage.writtenInParts : codec.WrittenInParts parts :=
  ((writtenInParts_whole .u32 rfl).pair ((writtenInParts_whole .serviceFlags rfl).pair
    ((writtenInParts_whole .i64 rfl).pair (Address.writtenInParts.pair (Address.writtenInParts.pair
      ((writtenInParts_whole .u64 rfl).pair ((writtenInParts_whole .varString rfl).pair
        ((writtenInParts_whole .i32 rfl).pair (writtenInParts_whole (.truth false) rfl))))))))).map
    _ _

namespace Reject

theorem writtenInParts_message : messageCodec.WrittenInParts fun message =>
    LeafValue.checked (Command.checkName message) fun _ => [⟨.varString, message⟩] where
  encode message := by
    rw [LeafValue.encodeAll_checked, LeafValue.encodeAll_singleton]
    rfl
  whole message := isWhole_of_mem_checked fun _ =>
    (writtenInParts_whole .varString rfl).whole message

theorem writtenInParts : codec.WrittenInParts parts :=
  (writtenInParts_message.pair ((writtenInParts_whole .rejectReason rfl).pair
    ((writtenInParts_whole .varString rfl).pair (writtenInParts_whole (.fixedBytes 32) rfl)))).map
    _ _

end Reject

theorem RawMessage.writtenInParts : codec.WrittenInParts parts where
  encode raw := by
    rw [encode_codec, parts, LeafValue.encodeAll_append,
      LeafValue.encodeAll_checked_singleton .checkedData, LeafValue.encodeAll, List.map_cons,
      List.map_singleton, Emission.all_cons, Emission.all_cons, Emission.all_nil,
      Emission.andThen_nothing, Emission.andThen_assoc]
    rfl
  whole raw part inside := by
    rcases List.mem_append.mp inside with front | behind
    · rw [List.mem_cons, List.mem_singleton] at front
      rcases front with rfl | rfl <;> rfl
    · exact isWhole_of_mem_checked (writtenInParts_whole .checkedData rfl).whole part behind

/-- What is held under a name is written as the value that is found. -/
theorem Codec.WrittenInParts.under {α : Type} {inner : Codec α} {parts : α → List LeafValue}
    (inParts : inner.WrittenInParts parts) {objects : Bool}
    (stray : objects = false → Except Fault α) (name : FieldName) :
    (inner.under stray name).WrittenInParts fun held =>
      LeafValue.checked (name.found stray held) parts :=
  inParts.checked (inner.encode_under stray name)

mutual

/-- Values of every format are written part by part. -/
theorem Format.writtenInParts : (format : Format) → format.codec.WrittenInParts format.parts
  | .vector element => element.writtenInParts.vector
  | .pair first second => first.writtenInParts.pair second.writtenInParts
  | .record fields => fields.writtenInParts (.finite 0)
  | .address => Address.writtenInParts
  | .inventory => Inventory.writtenInParts
  | .inventoryList => Inventory.writtenInParts.vector
  | .versionMessage => VersionMessage.writtenInParts
  | .reject => Reject.writtenInParts
  | .rawMessage => RawMessage.writtenInParts
  | .u8 | .u16 | .u32 | .u64 | .i8 | .i16 | .i32 | .i64 | .u16Network | .truth _ | .varInt
  | .fixedBytes _ | .varBytes | .varString | .commandString | .checkedData | .network
  | .serviceFlags | .inventoryType | .rejectReason | .broken .. => writtenInParts_whole _ rfl

theorem Fields.writtenInParts : (fields : Fields) → (earlier : Size) →
    (fields.codecBehind earlier).WrittenInParts fields.parts
  | .nil, _ => ⟨fun _ => rfl, fun _ _ inside => absurd inside List.not_mem_nil⟩
  | .cons name format rest, earlier => by
    have others := rest.writtenInParts (earlier + format.codec.elementSize)
    have both := (format.writtenInParts.under format.stray name).pair others
    exact ⟨both.encode, both.whole⟩

end

/-! ## Parts that fail -/

namespace Codec

variable {α β : Type}

/-- A value that cannot be written leaves nothing. -/
def IsWhole (codec : Codec α) : Prop :=
  ∀ value, (codec.encode value).IsWhole

theorem IsWhole.leavesBehind {codec : Codec α} (whole : codec.IsWhole) {value : α} {fault : Fault}
    (failed : codec.serialize value = .error fault) : codec.LeavesBehind value [] :=
  leavesBehind_iff.mpr ⟨⟨fault, failed⟩, whole value fault failed⟩

theorem isWhole_unsigned (order : ByteOrder) (width : Nat) : (unsigned order width).IsWhole :=
  fun _ => (Emission.isAtomic_ite _ _ _).isWhole

theorem isWhole_signed (order : ByteOrder) (width : Nat) : (signed order width).IsWhole :=
  fun _ => (Emission.isAtomic_ite _ _ _).isWhole

theorem isWhole_u64 : u64.IsWhole :=
  fun _ => (Emission.isAtomic_ite _ _ _).isWhole

theorem isWhole_i64 : i64.IsWhole :=
  fun _ => (Emission.isAtomic_ite _ _ _).isWhole

theorem isWhole_bool : bool.IsWhole :=
  fun _ => Emission.IsAtomic.isWhole (.inl ⟨_, rfl⟩)

theorem IsWhole.refine {inner : Codec β} (whole : inner.IsWhole) (wire : α → β)
    (ofWire : β → Except ConsensusError α) : (inner.refine wire ofWire).IsWhole :=
  fun value => whole (wire value)

theorem IsWhole.map {inner : Codec β} (whole : inner.IsWhole) (wire : α → β) (ofWire : β → α) :
    (inner.map wire ofWire).IsWhole :=
  fun value => whole (wire value)

theorem isWhole_varBytes : varBytes.IsWhole := fun value =>
  (Emission.isAtomic_ofExcept _ VarInt.toBytes).isWhole.andThen (Emission.toExcept_chunk value)

theorem isWhole_varString : varString.IsWhole := by
  intro value
  rw [varString]
  dsimp only
  split
  · exact isWhole_varBytes _
  · exact Emission.IsAtomic.isWhole (.inr ⟨_, rfl⟩)

/-- Only the length can fail, and it stands in front. -/
theorem isWhole_checkedData : checkedData.IsWhole := by
  intro value
  have behind : ((Emission.chunk (checksum value)).andThen (.chunk value)).toExcept
      = .ok (checksum value ++ value) := by
    rw [Emission.toExcept_andThen_of_ok (Emission.toExcept_chunk _), Emission.toExcept_chunk]
    rfl
  have length : (u32.encode (.int value.length)).IsWhole := isWhole_unsigned .little 4 _
  rw [encode_checkedData]
  exact length.andThen behind

end Codec

/-- A part that cannot be written leaves nothing. -/
theorem Format.isWhole_codec {format : Format} (whole : format.isWhole = true) :
    format.codec.IsWhole := by
  cases format with
  | u8 => exact isWhole_unsigned .little 1
  | u16 => exact isWhole_unsigned .little 2
  | u32 => exact isWhole_unsigned .little 4
  | u64 => exact isWhole_u64
  | i8 => exact isWhole_signed .little 1
  | i16 => exact isWhole_signed .little 2
  | i32 => exact isWhole_signed .little 4
  | i64 => exact isWhole_i64
  | u16Network => exact isWhole_unsigned .big 2
  | truth inverted =>
    cases inverted with
    | false => exact isWhole_bool
    | true => exact isWhole_bool.map _ _
  | varInt => exact fun _ => Emission.IsAtomic.isWhole (.inl ⟨_, rfl⟩)
  | fixedBytes length => exact fun _ => (Emission.isAtomic_ofExcept _ id).isWhole
  | varBytes => exact isWhole_varBytes
  | varString => exact isWhole_varString
  | commandString => exact fun _ => (Emission.isAtomic_ofExcept _ Command.field).isWhole
  | checkedData => exact isWhole_checkedData
  | network => exact (isWhole_unsigned .little 4).refine _ _
  | serviceFlags => exact isWhole_u64.map _ _
  | inventoryType => exact (isWhole_unsigned .little 4).refine _ _
  | rejectReason => exact (isWhole_unsigned .little 1).refine _ _
  | broken size onEncode onDecode => exact fun _ => Emission.IsAtomic.isWhole (.inr ⟨_, rfl⟩)
  | vector | pair | record | address | inventory | inventoryList | versionMessage | reject
  | rawMessage => cases whole

/-! ## In front of the part that fails -/

namespace Codec

section Failing

variable {α : Type} {codec : Codec α} {parts : α → List LeafValue} {value : α}

/-- What is left of a value is what was written of the parts in front of the first that cannot
be written. -/
theorem WrittenInParts.leavesBehind (inParts : codec.WrittenInParts parts)
    {front back : List LeafValue} {bad : LeafValue} {pieces : List Bytes} {fault : Fault}
    (split : parts value = front ++ bad :: back)
    (written : front.mapM LeafValue.serialize = .ok pieces)
    (failed : bad.serialize = .error fault) : codec.LeavesBehind value pieces.flatten := by
  have whole : bad.1.isWhole = true := by
    refine inParts.whole value bad ?_
    rw [split]
    exact List.mem_append_right _ List.mem_cons_self
  have nothing : bad.encode.bytes = [] := Format.isWhole_codec whole bad.2 fault failed
  obtain ⟨outcome, gathered⟩ := LeafValue.encodeAll_of_split back written failed
  rw [nothing, List.append_nil] at gathered
  rw [leavesBehind_iff, serialize, inParts.encode, split]
  exact ⟨⟨fault, outcome⟩, gathered⟩

/-- Parts in front of others are written in front. -/
theorem WrittenInParts.isPrefix (inParts : codec.WrittenInParts parts) {front : List LeafValue}
    {pieces : List Bytes} {bytes : Bytes} (written : front.mapM LeafValue.serialize = .ok pieces)
    (same : front <+: parts value) (all : codec.serialize value = .ok bytes) :
    pieces.flatten <+: bytes := by
  obtain ⟨back, split⟩ := same
  rw [serialize, inParts.encode, ← split, LeafValue.encodeAll, List.map_append,
    Emission.all_append] at all
  obtain ⟨gathered, rest, wroteFront, -, rfl⟩ := Emission.toExcept_andThen_eq_ok.mp all
  have together := LeafValue.toExcept_encodeAll written
  rw [LeafValue.encodeAll, wroteFront] at together
  cases together
  exact List.prefix_append _ rest

end Failing

/-! ## One level -/

variable {α β : Type}

theorem LeavesBehind.pair_first {first : Codec α} {second : Codec β} {value : α × β} {left : Bytes}
    (leaves : first.LeavesBehind value.1 left) : (first.pair second).LeavesBehind value left :=
  leaves.of_andThen_left rfl

theorem LeavesBehind.pair_second {first : Codec α} {second : Codec β} {value : α × β}
    {front left : Bytes} (written : first.serialize value.1 = .ok front)
    (leaves : second.LeavesBehind value.2 left) :
    (first.pair second).LeavesBehind value (front ++ left) :=
  leaves.of_andThen_right written rfl

/-- The elements in front of one that cannot be written stand behind the count. -/
theorem LeavesBehind.vector {element : Codec α} {front back : List α} {bad : α}
    {inside left : Bytes} (safe : (front ++ bad :: back).length ≤ Number.maxSafe)
    (written : element.serializeAll front = .ok inside) (leaves : element.LeavesBehind bad left) :
    element.vector.LeavesBehind (front ++ bad :: back)
      ((countOf (front ++ bad :: back).length).toBytes ++ inside ++ left) := by
  obtain ⟨⟨fault, failed⟩, -⟩ := leavesBehind_iff.mp leaves
  have counted := toExcept_emit_eq_ok.mpr ⟨safe, rfl⟩
  have ahead := Emission.toExcept_andThen_eq_ok.mpr ⟨_, _, counted, written, rfl⟩
  refine leaves.of_andThen_right ahead ?_
  rw [vector_eq_counted, Emission.andThen_assoc, ← Emission.all_of_split failed,
    ← List.map_cons, ← List.map_append]
  rfl

end Codec

/-- The values that are found in a record's fields, each with its format. -/
def Fields.values : (fields : Fields) → fields.Val → List LeafValue
  | .nil, _ => []
  | .cons name format rest, value =>
    LeafValue.checked (name.found format.stray value.1) (fun value => [⟨format, value⟩])
      ++ rest.values value.2

theorem Fields.encode_codecBehind (fields : Fields) (earlier : Size) (value : fields.Val) :
    (fields.codecBehind earlier).encode value = LeafValue.encodeAll (fields.values value) := by
  match fields, value with
  | .nil, _ => rfl
  | .cons name format rest, (first, others) =>
    have here : (format.codec.under format.stray name).encode first
        = LeafValue.encodeAll
          (LeafValue.checked (name.found format.stray first) fun value => [⟨format, value⟩]) := by
      rw [encode_under, LeafValue.encodeAll_checked_singleton]
    rw [values, LeafValue.encodeAll_append, ← here,
      ← rest.encode_codecBehind (earlier + format.codec.elementSize)]
    rfl

/-- The fields in front of one that cannot be written stand in front of what that leaves. -/
theorem Fields.leavesBehind {fields : Fields} {value : fields.Val} {front back : List LeafValue}
    {bad : LeafValue} {pieces : List Bytes} {left : Bytes}
    (split : fields.values value = front ++ bad :: back)
    (written : front.mapM LeafValue.serialize = .ok pieces)
    (leaves : bad.1.codec.LeavesBehind bad.2 left) :
    (Format.record fields).codec.LeavesBehind value (pieces.flatten ++ left) := by
  obtain ⟨⟨fault, failed⟩, -⟩ := leavesBehind_iff.mp leaves
  refine leaves.of_andThen_right (LeafValue.toExcept_encodeAll written) ?_
  have stopped : bad.encode.toExcept = .error fault := failed
  have row := fields.encode_codecBehind (.finite 0) value
  rw [split, LeafValue.encodeAll, List.map_append, List.map_cons,
    Emission.all_of_split stopped] at row
  exact row

/-- A value without smaller parts that cannot be written leaves nothing. -/
theorem Format.leavesBehind_of_isWhole {format : Format} (whole : format.isWhole = true)
    {value : format.Val} {left : Bytes} (leaves : format.codec.LeavesBehind value left) :
    left = [] := by
  obtain ⟨⟨fault, failed⟩, rfl⟩ := leavesBehind_iff.mp leaves
  exact isWhole_codec whole value fault failed

namespace Address

variable {services : ServiceFlags} {port : Number} {flags inside : Bytes} {fault : Fault}

/-- What the groups and the port leave stands behind the services. -/
theorem leavesBehind_of_rest {groups : List Number} {left : Bytes}
    (offered : ServiceFlags.codec.serialize services = .ok flags)
    (leaves : (groupsCodec.pair u16Network).LeavesBehind (groups, port) left) :
    codec.LeavesBehind ⟨services, groups, port⟩ (flags ++ left) := by
  have encoded : codec.encode ⟨services, groups, port⟩
      = (ServiceFlags.codec.encode services).andThen
          ((groupsCodec.pair u16Network).encode (groups, port)) := rfl
  exact leaves.of_andThen_right offered encoded

/-- The groups in front of one that does not fit stand behind the services. -/
theorem leavesBehind_group {front back : List Number} {bad : Number}
    (eight : (front ++ bad :: back).length = groupCount)
    (offered : ServiceFlags.codec.serialize services = .ok flags)
    (written : u16Network.serializeAll front = .ok inside)
    (failed : u16Network.serialize bad = .error fault) :
    codec.LeavesBehind ⟨services, front ++ bad :: back, port⟩ (flags ++ inside) := by
  have nothing : u16Network.LeavesBehind bad [] := (isWhole_unsigned .big 2).leavesBehind failed
  have groups : groupsCodec.LeavesBehind (front ++ bad :: back) (inside ++ []) := by
    refine nothing.of_andThen_right written ?_
    rw [groupsCodec]
    dsimp only
    rw [if_pos eight, Emission.addUp_zero, List.map_append, List.map_cons,
      Emission.all_of_split failed]
  rw [List.append_nil] at groups
  exact leavesBehind_of_rest offered groups.pair_first

/-- All groups stand in front of a port that does not fit. -/
theorem leavesBehind_port {groups : List Number} (eight : groups.length = groupCount)
    (offered : ServiceFlags.codec.serialize services = .ok flags)
    (written : u16Network.serializeAll groups = .ok inside)
    (failed : u16Network.serialize port = .error fault) :
    codec.LeavesBehind ⟨services, groups, port⟩ (flags ++ inside) := by
  have all : groupsCodec.serialize groups = .ok inside :=
    serialize_groupsCodec_eq_ok.mpr ⟨eight, written⟩
  have leaves : (groupsCodec.pair u16Network).LeavesBehind (groups, port) (inside ++ []) :=
    ((isWhole_unsigned .big 2).leavesBehind failed).pair_second all
  rw [List.append_nil] at leaves
  exact leavesBehind_of_rest offered leaves

end Address

/-- A payload that cannot be put together leaves the magic and the field of the command. -/
theorem RawMessage.leavesBehind {raw : RawMessage} {magic : Bytes} {fault : Fault}
    (wroteMagic : u32.serialize raw.magic = .ok magic)
    (failed : raw.payload.encodePayload = .error fault) :
    ∃ name, Command.codec.serialize raw.payload.command.name = .ok name
      ∧ magic.length = 4 ∧ name.length = 12 ∧ codec.LeavesBehind raw (magic ++ name) := by
  obtain ⟨name, wroteName⟩ := Command.exists_serialize_name raw.payload.command
  have magicSize : magic.length = 4 := Codec.spans_unsigned .little 4 _ _ wroteMagic
  have nameSize : name.length = 12 := by
    obtain ⟨⟨-, -, short⟩, rfl⟩ := Command.serialize_codec_eq_ok.mp wroteName
    exact Command.length_field short
  have split : raw.parts = [⟨.u32, raw.magic⟩, ⟨.commandString, raw.payload.command.name⟩]
      ++ .refused fault :: [] := by
    rw [parts, failed]
    rfl
  have front : [(⟨.u32, raw.magic⟩ : LeafValue),
      ⟨.commandString, raw.payload.command.name⟩].mapM LeafValue.serialize = .ok [magic, name] := by
    have first : LeafValue.serialize ⟨.u32, raw.magic⟩ = .ok magic := wroteMagic
    have second : LeafValue.serialize ⟨.commandString, raw.payload.command.name⟩ = .ok name :=
      wroteName
    rw [List.mapM_cons, List.mapM_cons, List.mapM_nil, first, second]
    rfl
  have leaves := writtenInParts.leavesBehind split front rfl
  rw [List.flatten_cons, List.flatten_singleton] at leaves
  exact ⟨name, wroteName, magicSize, nameSize, leaves⟩

/-! ## What is left, at any depth -/

/-- Writing a value to a sink that grows fails at the first of its parts that cannot be written,
and the sink has gained exactly what was written of the parts in front of it. That is a prefix of
what is written of any value with the same parts in front, and for each kind of format:

- of a pair, what the first leaves, or all of the first and what the second leaves;
- of a record, all fields in front of the one that fails and what that leaves;
- of a sequence, the count, all elements in front of the one that fails and what that leaves;
- of an address of eight groups, the services and the groups in front of the one that does not
  fit, or all groups if that is the port;
- of a raw message with a magic and a payload that cannot be put together, the magic and the
  field of the command, which are sixteen bytes;
- of anything without smaller parts, nothing. -/
theorem failed_encode_leaves_front :
    (∀ (format : Format) (value : format.Val) (sink after : GrowableSink) (failure : Failure),
        (format.codec.encode value).deliver sink = (.error failure, after) →
        ∃ bad back pieces fault,
          format.parts value = LeafValue.front (format.parts value) ++ bad :: back
            ∧ (LeafValue.front (format.parts value)).mapM LeafValue.serialize = .ok pieces
            ∧ bad.serialize = .error fault ∧ failure = .fault fault
            ∧ after.toBytes = sink.toBytes ++ pieces.flatten
            ∧ ∀ other bytes, LeafValue.front (format.parts value) <+: format.parts other →
                format.codec.serialize other = .ok bytes → pieces.flatten <+: bytes)
      ∧ (∀ (first second : Format) (value : first.Val × second.Val) (left : Bytes),
          (first.codec.LeavesBehind value.1 left →
              (Format.pair first second).codec.LeavesBehind value left)
            ∧ ∀ front, first.codec.serialize value.1 = .ok front →
              second.codec.LeavesBehind value.2 left →
                (Format.pair first second).codec.LeavesBehind value (front ++ left))
      ∧ (∀ (fields : Fields) (value : fields.Val) front bad back pieces left,
          fields.values value = front ++ bad :: back →
            front.mapM LeafValue.serialize = .ok pieces → bad.1.codec.LeavesBehind bad.2 left →
              (Format.record fields).codec.LeavesBehind value (pieces.flatten ++ left))
      ∧ (∀ (element : Format) (front : List element.Val) bad back inside left,
          (front ++ bad :: back).length ≤ Number.maxSafe →
            element.codec.serializeAll front = .ok inside → element.codec.LeavesBehind bad left →
              (Format.vector element).codec.LeavesBehind (front ++ bad :: back)
                ((countOf (front ++ bad :: back).length).toBytes ++ inside ++ left))
      ∧ (∀ services flags inside fault, ServiceFlags.codec.serialize services = .ok flags →
          (∀ front bad back port, (front ++ bad :: back).length = 8 →
              u16Network.serializeAll front = .ok inside → u16Network.serialize bad = .error fault →
                Address.codec.LeavesBehind ⟨services, front ++ bad :: back, port⟩ (flags ++ inside))
            ∧ ∀ groups port, groups.length = 8 → u16Network.serializeAll groups = .ok inside →
              u16Network.serialize port = .error fault →
                Address.codec.LeavesBehind ⟨services, groups, port⟩ (flags ++ inside))
      ∧ (∀ raw magic fault, u32.serialize raw.magic = .ok magic →
          raw.payload.encodePayload = .error fault →
            ∃ name, Command.codec.serialize raw.payload.command.name = .ok name
              ∧ magic.length = 4 ∧ name.length = 12
              ∧ RawMessage.codec.LeavesBehind raw (magic ++ name))
      ∧ ∀ (format : Format) (value : format.Val) (left : Bytes), format.isWhole = true →
          format.codec.LeavesBehind value left → left = [] := by
  refine ⟨?_, ?_, ?_, ?_, ?_, ?_, ?_⟩
  · intro format value sink after failure failed
    have inParts := format.writtenInParts
    obtain ⟨fault, rfl, refused, gathered⟩ := Codec.of_deliver_eq_error failed
    have row := refused
    rw [serialize, inParts.encode] at row
    obtain ⟨bad, back, pieces, split, written, stopped⟩ := LeafValue.exists_split_of_error row
    have leaves := leavesBehind_iff.mp (inParts.leavesBehind split written stopped)
    rw [leaves.2] at gathered
    refine ⟨bad, back, pieces, fault, split, written, stopped, rfl, gathered, ?_⟩
    exact fun other bytes same all => inParts.isPrefix written same all
  · exact fun first second value left =>
      ⟨fun leaves => leaves.pair_first, fun front written leaves => leaves.pair_second written⟩
  · exact fun fields value front bad back pieces left split written leaves =>
      Fields.leavesBehind split written leaves
  · exact fun element front bad back inside left safe written leaves => leaves.vector safe written
  · exact fun services flags inside fault offered =>
      ⟨fun front bad back port eight written failed =>
          Address.leavesBehind_group eight offered written failed,
        fun groups port eight written failed =>
          Address.leavesBehind_port eight offered written failed⟩
  · exact fun raw magic fault wroteMagic failed => RawMessage.leavesBehind wroteMagic failed
  · exact fun format value left whole leaves => Format.leavesBehind_of_isWhole whole leaves

/-- Three pairs of a byte and a number of two bytes, of which the second has a number that is too
large: the count, the first pair and the byte of the second are left, which any other number in
that place would have in front of it. An address of which the third group is too large, and a ping
whose nonce has no eight bytes. -/
theorem failed_encode_leaves_front_pairs :
    (∃ after, ((Format.vector (.pair .u8 .u16)).codec.encode [(1, 2), (3, 70000), (4, 5)]).deliver
          GrowableSink.empty = (.error (.fault (.notUnsigned 70000 16)), after)
        ∧ after.toBytes = [3, 1, 2, 0, 3] ∧ after.toBytes <+: [3, 1, 2, 0, 3, 4, 0, 9, 9, 0])
      ∧ (Format.vector (.pair .u8 .u16)).codec.LeavesBehind [(1, 2), (3, 70000), (4, 5)]
        [3, 1, 2, 0, 3]
      ∧ Address.codec.LeavesBehind ⟨⟨5⟩, [1, 2, 70000, 0, 0, 0, 0, 0], 8333⟩
        [5, 0, 0, 0, 0, 0, 0, 0, 0, 1, 0, 2]
      ∧ RawMessage.codec.LeavesBehind ⟨0xd9b4bef9, .ping (-1)⟩
        [0xf9, 0xbe, 0xb4, 0xd9, 112, 105, 110, 103, 0, 0, 0, 0, 0, 0, 0, 0] := by
  obtain ⟨deep, pairs, -, sequences, addresses, raws, -⟩ := failed_encode_leaves_front
  refine ⟨?_, ?_, ?_, ?_⟩
  · obtain ⟨bad, back, pieces, fault, -, written, -, -, gathered, others⟩ :=
      deep (.vector (.pair .u8 .u16)) [(1, 2), (3, 70000), (4, 5)] GrowableSink.empty _ _ rfl
    cases written
    exact ⟨_, rfl, gathered, others [(1, 2), (3, 4), (9, 9)] _ ⟨_, rfl⟩ rfl⟩
  · have number : Codec.u16.LeavesBehind 70000 [] := Codec.leavesBehind_iff.mpr ⟨⟨_, rfl⟩, rfl⟩
    have pair := (pairs .u8 .u16 (3, 70000) []).2 [3] rfl number
    exact sequences (.pair .u8 .u16) [(1, 2)] (3, 70000) [(4, 5)] [1, 2, 0] _ (by decide) rfl pair
  · exact (addresses ⟨5⟩ _ [0, 1, 0, 2] _ rfl).1 [1, 2] 70000 [0, 0, 0, 0, 0] 8333 rfl rfl rfl
  · obtain ⟨name, wroteName, -, -, leaves⟩ := raws ⟨0xd9b4bef9, .ping (-1)⟩ _ _ rfl rfl
    cases wroteName
    exact leaves

end PeerWire
