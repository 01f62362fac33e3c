import PeerWire.Proofs.Domains
import PeerWire.Window

/-!
# Checks that cannot fail

Reading is made of operations that fault when they are misused. A room is refused beyond
what the environment can give out; an integer is taken from a window, which must hold it;
a byte string is checked for its length, a mask and a magnitude for their range, a text
for being UTF-8, and a record for having all of its fields. Most decoders of formats show
none of this, because their types leave no way for the checks to fail.

The strict decoders below read the same formats with every such operation carried out as
a checked one, whose failure is a fault. They agree with the decoders of formats on all
bytes (`Format.agrees_strict`): none of the checks that those leave out can fail, at any
depth, as long as the environment gives out rooms for what the ceiling lets pass. That is
where the order of the checks matters. A room is asked for only behind the check of the
ceiling, a mask is made of eight bytes and no others, and a name is decoded only once it is
known to be ASCII.

One check can fail, and those do not leave it out: an integer is made of the size of an
element, and an infinite size is none. So reading never ends in a fault where elements have
sizes in bytes (`Format.tryDeserialize_total`), and does where they have not
(`Format.tryDeserialize_faults`).
-/

set_option autoImplicit false

attribute [local instance (high)] instPowNat

namespace PeerWire

/-! ## Agreement -/

namespace Decoder

variable {α β : Type}

/-- Two decoders make the same of any bytes. -/
def Agrees (decoder other : Decoder α) : Prop :=
  ∀ bytes, decoder.parse bytes = other.parse bytes

theorem Agrees.refl (decoder : Decoder α) : decoder.Agrees decoder :=
  fun _ => rfl

theorem Agrees.of_eq {decoder other : Decoder α} (same : decoder = other) :
    decoder.Agrees other := by
  rw [same]
  exact .refl other

theorem Agrees.trans {decoder middle other : Decoder α} (first : decoder.Agrees middle)
    (second : middle.Agrees other) : decoder.Agrees other :=
  fun bytes => (first bytes).trans (second bytes)

/-- Decoders that agree on the bytes that they are handed agree behind taking them. -/
theorem Agrees.take {count : Nat} {next onward : Bytes → Decoder α}
    (behind : ∀ bytes, bytes.length = count → (next bytes).Agrees (onward bytes)) :
    (take count next).Agrees (.take count onward) := by
  intro bytes
  rcases Nat.lt_or_ge bytes.length count with short | held
  · rw [parse_take_of_lt short, parse_take_of_lt short]
  · have size : (bytes.take count).length = count := by
      rw [List.length_take, Nat.min_eq_left held]
    rw [parse_take_of_le held, parse_take_of_le held]
    exact behind _ size _

/-- It is enough to agree on the values that a decoder can have. -/
theorem Agrees.bind {decoder other : Decoder α} {next onward : α → Decoder β} {domain : α → Prop}
    (first : decoder.Agrees other)
    (range : ∀ {bytes rest : Bytes} {value : α}, other.parse bytes = (.ok value, rest) →
      domain value)
    (behind : ∀ value, domain value → (next value).Agrees (onward value)) :
    (decoder.bind next).Agrees (other.bind onward) := by
  intro bytes
  rw [parse_bind, parse_bind, first bytes]
  cases parsed : other.parse bytes with
  | mk outcome rest =>
    cases outcome with
    | error failure => rfl
    | ok value => exact behind value (range parsed) rest

theorem Agrees.bind_left {decoder other : Decoder α} (first : decoder.Agrees other)
    (next : α → Decoder β) : (decoder.bind next).Agrees (other.bind next) := by
  intro bytes
  rw [parse_bind, parse_bind, first bytes]

/-- Two decoders back to back agree with two others piece by piece. -/
theorem Agrees.pair {first firstOther : Decoder α} {second secondOther : Decoder β}
    (front : first.Agrees firstOther) (back : second.Agrees secondOther) :
    (first.bind fun a => second.bind fun b => .done (a, b)).Agrees
      (firstOther.bind fun a => secondOther.bind fun b => .done (a, b)) := by
  intro bytes
  rw [parse_bind, parse_bind, front bytes]
  split
  · exact back.bind_left _ _
  · rfl

theorem Agrees.times {decoder other : Decoder α} (same : decoder.Agrees other) (count : Nat) :
    (Decoder.times count decoder).Agrees (Decoder.times count other) := by
  induction count with
  | zero => exact .refl _
  | succ count ih =>
    have twice := (same.pair ih).bind_left fun (value, values) => done (value :: values)
    simp only [bind_assoc] at twice
    rw [times_succ, times_succ]
    exact twice

theorem Agrees.deserializePartial {decoder other : Decoder α} (same : decoder.Agrees other)
    (bytes : Bytes) : decoder.deserializePartial bytes = other.deserializePartial bytes := by
  rw [deserializePartial_eq, deserializePartial_eq, same bytes]

theorem Agrees.deserialize {decoder other : Decoder α} (same : decoder.Agrees other)
    (bytes : Bytes) : decoder.deserialize bytes = other.deserialize bytes := by
  rw [Decoder.deserialize, Decoder.deserialize, same.deserializePartial bytes]

theorem Agrees.tryDeserialize {decoder other : Decoder α} (same : decoder.Agrees other)
    (bytes : Bytes) : decoder.tryDeserialize bytes = other.tryDeserialize bytes := by
  rw [Decoder.tryDeserialize, Decoder.tryDeserialize, same.deserialize bytes]

/-- Goes on with a checked value; a check that fails is a fault. -/
def checked : Except Fault α → Decoder α
  | .ok value => .done value
  | .error fault => .fail (.fault fault)

end Decoder

open Decoder (checked)

/-! ## Checked operations -/

/-- The text of bytes that must be UTF-8. -/
def Text.ofUtf8 (bytes : Bytes) : Except Fault Text :=
  match ofUtf8? bytes with
  | some text => .ok text
  | none => .error .malformedUtf8

/-- Asks for room of a number of places, where `limit` is the most there can be. -/
def allocate (limit places : Nat) (refusal : Fault) : Except Fault Unit :=
  if places ≤ limit then .ok () else .error refusal

theorem allocate_of_le {limit places : Nat} (ample : places ≤ limit) (refusal : Fault) :
    allocate limit places refusal = .ok () := by
  rw [allocate, if_pos ample]

/-- The fields of a record as they are read one after the other: their names, the plain
decoder, and the loop that notes down the name of each field it has read. -/
structure Row (α : Type) where
  names : List FieldName
  plain : Decoder α
  loop : List FieldName → Decoder (α × List FieldName)
  loop_eq : ∀ earlier, loop earlier = plain.bind fun value => .done (value, earlier ++ names)

namespace Row

variable {α β : Type}

/-- No fields. -/
def nil : Row Unit where
  names := []
  plain := .done ()
  loop earlier := .done ((), earlier)
  loop_eq earlier := by rw [List.append_nil]; rfl

/-- A single field. -/
def last (name : FieldName) (value : Decoder α) : Row α where
  names := [name]
  plain := value
  loop earlier := value.bind fun value => .done (value, earlier ++ [name])
  loop_eq _ := rfl

/-- A field in front of others. -/
def cons (name : FieldName) (value : Decoder α) (rest : Row β) : Row (α × β) where
  names := name :: rest.names
  plain := value.bind fun value => rest.plain.bind fun others => .done (value, others)
  loop earlier :=
    value.bind fun value => (rest.loop (earlier ++ [name])).bind fun (others, noted) =>
      .done ((value, others), noted)
  loop_eq earlier := by
    simp only [rest.loop_eq, Decoder.bind_assoc, Decoder.bind, List.append_assoc,
      List.singleton_append]

/-- Checks that every field has been read. -/
def complete (names noted : List FieldName) : Except Fault Unit :=
  if names.all fun name => noted.contains name then .ok ()
  else .error (.foreign .general "record is missing decoded fields")

/-- Reads the fields, and checks that none is missing. -/
def read (row : Row α) : Decoder α :=
  (row.loop []).bind fun (value, noted) =>
    (checked (complete row.names noted)).bind fun () => .done value

/-- No field is missing behind the loop. -/
theorem read_eq (row : Row α) : row.read = row.plain := by
  have none : complete row.names row.names = .ok () := by
    rw [complete, if_pos]
    exact List.all_eq_true.mpr fun name inside => List.contains_iff_mem.mpr inside
  rw [read, row.loop_eq, Decoder.bind_assoc]
  simp only [Decoder.bind, List.nil_append, none, checked, Decoder.bind_done]

end Row

/-! ## Strict decoders -/

namespace Strict

variable {α : Type} (limit : Nat)

/-- Takes bytes into a room of their own. -/
def bytes (count : Nat) : Decoder Bytes :=
  (checked (allocate limit count (.badSize (.int count)))).bind fun () => .bytes count

/-- An integer, from the front of a window over its bytes. -/
def integer (layout : IntLayout) : Decoder Int :=
  (bytes limit layout.width).bind fun bytes => checked ((Window.ofBytes bytes).read layout 0)

def number (layout : IntLayout) : Decoder Number :=
  (integer limit layout).bind fun value => .done (.int value)

def truth : Decoder Bool :=
  (integer limit ⟨1, .little, false⟩).bind fun byte => .done (byte != 0)

/-- The integer behind a marker, which must not fit a shorter form. -/
def wide (width shorter : Nat) : Decoder Int :=
  (integer limit ⟨width, .little, false⟩).bind fun value =>
    if value ≤ shorter then .reject .nonMinimalVarInt else .done value

/-- A magnitude as an unlimited integer. -/
def magnitude : Decoder Int :=
  (integer limit ⟨1, .little, false⟩).bind fun marker =>
    if marker = 0xff then wide limit 8 0xffffffff
    else if marker = 0xfe then wide limit 4 0xffff
    else if marker = 0xfd then wide limit 2 0xfc
    else .done marker

def varInt : Decoder VarInt :=
  (magnitude limit).bind fun value => checked (VarInt.ofInt value)

def serviceFlags : Decoder ServiceFlags :=
  (integer limit ⟨8, .little, false⟩).bind fun bits => checked (ServiceFlags.ofInt bits)

def fixedBytes (length : Nat) : Decoder Bytes :=
  (bytes limit length).bind fun value => checked (value.exactly (.int length))

/-- A size as an unlimited integer, which an infinite size is not. -/
def charge : Size → Except Fault Nat
  | .finite bytes => .ok bytes
  | .infinite => .error .infiniteSize

/-- Makes an integer of a size, checks a count against the ceiling at that size, and hands
the count on as a number. -/
def places (count : Nat) (size : Size) : Decoder Nat :=
  (checked (charge size)).bind fun bytes =>
    (Decoder.ofExcept (withinCeiling count bytes)).bind fun count =>
      .done (Number.roundNat count)

/-- A count of elements, checked. -/
def count (size : Size) : Decoder Nat :=
  (magnitude limit).bind fun value => places value.toNat size

/-- A count, room for as many values, and then the values. -/
def vector (size : Size) (element : Decoder α) : Decoder (List α) :=
  (count limit size).bind fun count =>
    (checked (allocate limit count (.foreign .range "Invalid array length"))).bind fun () =>
      .times count element

def varBytes : Decoder Bytes :=
  (count limit (.finite 1)).bind (bytes limit)

/-- The fault of bytes that are not UTF-8 is caught, and becomes a consensus error. -/
def varString : Decoder Text :=
  (varBytes limit).bind fun bytes =>
    match Text.ofUtf8 bytes with
    | .ok text => .done text
    | .error _ => .reject (.parseFailed .notUtf8)

/-- Nothing catches the fault of a name that is not UTF-8. -/
def commandString : Decoder Text :=
  (bytes limit Command.fieldSize).bind fun field =>
    let name := Command.trim field
    if name.contains 0 then .reject (.parseFailed .embeddedNul)
    else if name.isAscii then checked (Text.ofUtf8 name)
    else .reject (.parseFailed .commandNotAscii)

/-- The digest is checked for its width before its front is compared. -/
def checkedData : Decoder Bytes :=
  (integer limit ⟨4, .little, false⟩).bind fun length =>
    (places length.toNat (.finite 1)).bind fun length =>
      (bytes limit 4).bind fun claimed =>
        (bytes limit length).bind fun data =>
          (checked ((hash256 data).exactly (.int 32))).bind fun digest =>
            if digest.take 4 = claimed then .done data
            else .reject (.invalidChecksum (digest.take 4) claimed)

/-- A value known by a code of a fixed width. -/
def coded (width : Nat) (all : List α) (code : α → Nat) (unknown : Number → ConsensusError) :
    Decoder α :=
  (number limit ⟨width, .little, false⟩).bind fun number =>
    .ofExcept (match Codec.ofCode? all code number with
      | some value => .ok value
      | none => .error (unknown number))

def network : Decoder Network :=
  coded limit 4 Network.all Network.magic .unknownNetworkMagic

def inventoryType : Decoder InventoryType :=
  coded limit 4 InventoryType.all InventoryType.code .unknownInventoryType

def rejectReason : Decoder RejectReason :=
  coded limit 1 RejectReason.all RejectReason.code fun _ => .parseFailed .unknownRejectCode

def address : Decoder Address :=
  (Row.cons (.ofString "services") (serviceFlags limit)
    (Row.cons (.ofString "address") (.times Address.groupCount (number limit ⟨2, .big, false⟩))
      (Row.last (.ofString "port") (number limit ⟨2, .big, false⟩)))).read.bind
    fun (services, groups, port) => .done ⟨services, groups, port⟩

def inventory : Decoder Inventory :=
  (Row.cons (.ofString "type") (inventoryType limit)
    (Row.last (.ofString "hash") (fixedBytes limit 32))).read.bind
    fun (kind, hash) => .done ⟨kind, hash⟩

def inventoryList : Decoder (List Inventory) :=
  vector limit Inventory.codec.elementSize (inventory limit)

def versionMessage : Decoder VersionMessage :=
  (Row.cons (.ofString "version") (number limit ⟨4, .little, false⟩)
    (Row.cons (.ofString "services") (serviceFlags limit)
    (Row.cons (.ofString "timestamp") (integer limit ⟨8, .little, true⟩)
    (Row.cons (.ofString "receiver") (address limit)
    (Row.cons (.ofString "sender") (address limit)
    (Row.cons (.ofString "nonce") (integer limit ⟨8, .little, false⟩)
    (Row.cons (.ofString "userAgent") (varString limit)
    (Row.cons (.ofString "startHeight") (number limit ⟨4, .little, true⟩)
    (Row.last (.ofString "relay") (truth limit)))))))))).read.bind
    fun (version, services, timestamp, receiver, sender, nonce, userAgent, startHeight, relay) =>
      .done ⟨version, services, timestamp, receiver, sender, nonce, userAgent, startHeight, relay⟩

def reject : Decoder Reject :=
  (Row.cons (.ofString "message") (varString limit)
    (Row.cons (.ofString "ccode") (rejectReason limit)
    (Row.cons (.ofString "reason") (varString limit)
    (Row.last (.ofString "hash") (fixedBytes limit 32))))).read.bind
    fun (message, code, reason, hash) => .done ⟨message, code, reason, hash⟩

def peers : Decoder (List (Number × Address)) :=
  vector limit (Codec.u32.pair Address.codec).elementSize
    ((number limit ⟨4, .little, false⟩).bind fun time =>
      (address limit).bind fun peer => .done (time, peer))

/-- The layout of a command, to be read by strict decoders. -/
def layout : Command → Layout
  | .version => .carries { VersionMessage.codec with decode := versionMessage limit } .version
  | .verack => .empty .verack
  | .addr => .carries { NetworkMessage.peersCodec with decode := peers limit } .addr
  | .inv => .carries { Inventory.listCodec with decode := inventoryList limit } .inv
  | .getdata => .carries { Inventory.listCodec with decode := inventoryList limit } .getdata
  | .notfound => .carries { Inventory.listCodec with decode := inventoryList limit } .notfound
  | .getaddr => .empty .getaddr
  | .ping => .carries { Codec.u64 with decode := integer limit ⟨8, .little, false⟩ } .ping
  | .pong => .carries { Codec.u64 with decode := integer limit ⟨8, .little, false⟩ } .pong
  | .sendheaders => .empty .sendheaders
  | .reject => .carries { Reject.codec with decode := reject limit } .reject

/-- The message of a command name with a payload. -/
def payload (name : Text) (data : Bytes) : Except Failure NetworkMessage :=
  match Command.ofName? name with
  | some command => (layout limit command).read data
  | none => .error (.consensus (.unrecognizedCommand name))

def rawMessage : Decoder RawMessage :=
  (number limit ⟨4, .little, false⟩).bind fun magic =>
    (commandString limit).bind fun name =>
      (checkedData limit).bind fun data =>
        (Decoder.ofResult (payload limit name data)).bind fun payload =>
          .done ⟨magic, payload⟩

/-- What is held for a field once its value has been assigned. -/
def assigned (objects : Bool) (value : Decoder α) :
    (name : FieldName) → Decoder (name.Holding objects α)
  | .ordinary .. => value
  | .prototype => value.bind fun value => .done (.assigned objects value)

end Strict

mutual

/-- Reads a format with every check in place. -/
def Format.strict (limit : Nat) : (format : Format) → Decoder format.Val
  | .u8 => Strict.number limit ⟨1, .little, false⟩
  | .u16 => Strict.number limit ⟨2, .little, false⟩
  | .u32 => Strict.number limit ⟨4, .little, false⟩
  | .u64 => Strict.integer limit ⟨8, .little, false⟩
  | .i8 => Strict.number limit ⟨1, .little, true⟩
  | .i16 => Strict.number limit ⟨2, .little, true⟩
  | .i32 => Strict.number limit ⟨4, .little, true⟩
  | .i64 => Strict.integer limit ⟨8, .little, true⟩
  | .u16Network => Strict.number limit ⟨2, .big, false⟩
  | .truth false => Strict.truth limit
  | .truth true => (Strict.truth limit).bind fun value => .done (not value)
  | .varInt => Strict.varInt limit
  | .fixedBytes length => Strict.fixedBytes limit length
  | .varBytes => Strict.varBytes limit
  | .varString => Strict.varString limit
  | .commandString => Strict.commandString limit
  | .checkedData => Strict.checkedData limit
  | .network => Strict.network limit
  | .serviceFlags => Strict.serviceFlags limit
  | .inventoryType => Strict.inventoryType limit
  | .rejectReason => Strict.rejectReason limit
  | .address => Strict.address limit
  | .inventory => Strict.inventory limit
  | .inventoryList => Strict.inventoryList limit
  | .versionMessage => Strict.versionMessage limit
  | .reject => Strict.reject limit
  | .rawMessage => Strict.rawMessage limit
  | .broken _ _ onDecode => .fail (.fault onDecode)
  | .vector element => Strict.vector limit element.codec.elementSize (element.strict limit)
  | .pair first second =>
    (first.strict limit).bind fun a => (second.strict limit).bind fun b => .done (a, b)
  | .record fields => (fields.row limit).read

def Fields.row (limit : Nat) : (fields : Fields) → Row fields.Val
  | .nil => .nil
  | .cons name format rest =>
    .cons name (Strict.assigned format.isObject (format.strict limit) name) (rest.row limit)

end

/-! ## No check fails -/

/-- A window over bytes of the width holds the integer. -/
theorem Window.read_ofBytes {bytes : Bytes} {layout : IntLayout}
    (size : bytes.length = layout.width) :
    (ofBytes bytes).read layout 0
      = .ok (if layout.signed then layout.order.readSigned bytes else layout.order.read bytes) := by
  have inside : (ofBytes bytes).place? layout.width 0 = some 0 := by
    rw [place?, ofBytes, size]
    simp
  rw [Window.read, inside]
  dsimp only [ofBytes]
  rw [List.drop_zero, List.take_of_length_le (Nat.le_of_eq size)]

theorem ByteOrder.read_singleton (byte : UInt8) : little.read [byte] = byte.toNat := by
  simp only [read, arrange, Bytes.toNat, Nat.mul_zero, Nat.add_zero]

theorem Bytes.exactly_of_length {bytes : Bytes} {length : Nat} (size : bytes.length = length) :
    bytes.exactly (.int length) = .ok bytes := by
  rw [exactly, size, if_pos rfl]

theorem Text.ofUtf8_of_isAscii {bytes : Bytes} (ascii : bytes.isAscii = true) :
    ofUtf8 bytes = .ok ⟨bytes.map UInt8.toUInt16⟩ := by
  have read := ofUtf8?_toUtf8 (isWellFormed_map_toUInt16 bytes)
  rw [toUtf8_of_isAscii ascii] at read
  rw [ofUtf8, read]

namespace Strict

open Decoder (Agrees)

theorem places_eq (count : Nat) (size : Size) :
    places count size = .ofResult (checkAllocation count size) := by
  cases size with
  | infinite => rfl
  | finite bytes =>
    have ceiling : maxSequenceSize ≤ 2 ^ (53 : Nat) := by decide
    have sound := Codec.sound_checkAllocation count bytes
    rw [Decoder.ofResult_checkAllocation] at sound ⊢
    rw [places, charge, checked, Decoder.bind]
    cases outcome : withinCeiling count bytes with
    | error error => rfl
    | ok checked =>
      rw [outcome] at sound
      rw [Decoder.ofExcept, Decoder.bind, Number.roundNat_of_le (Nat.le_trans sound ceiling)]

/-- Every magnitude is in range. -/
theorem checked_ofInt (varInt : VarInt) :
    checked (VarInt.ofInt varInt.value.toNat) = .done varInt := by
  have bound := varInt.value.toNat_lt
  have fits : isUnsigned64 varInt.value.toNat = true :=
    isUnsigned64_iff.mpr ⟨by omega, by omega⟩
  rw [VarInt.ofInt, if_pos fits, Int.toNat_natCast, UInt64.ofNat_toNat]
  rfl

section Agreement

variable {α : Type} {limit : Nat} (ample : maxSequenceSize ≤ limit)
include ample

/-- Within the ceiling there is room. -/
theorem bytes_eq {count : Nat} (small : count ≤ maxSequenceSize) :
    bytes limit count = .bytes count := by
  rw [bytes, allocate_of_le (Nat.le_trans small ample)]
  rfl

theorem agrees_integer (layout : IntLayout) (small : layout.width ≤ maxSequenceSize) :
    (integer limit layout).Agrees
      (.take layout.width fun bytes =>
        .done (if layout.signed then layout.order.readSigned bytes
          else layout.order.read bytes)) := by
  rw [integer, bytes_eq ample small]
  refine Agrees.take fun bytes size => ?_
  rw [Decoder.bind, Window.read_ofBytes size]
  exact .refl _

theorem agrees_unsigned (order : ByteOrder) {width : Nat} (small : width ≤ maxSequenceSize) :
    (number limit ⟨width, order, false⟩).Agrees (Codec.unsigned order width).decode :=
  (agrees_integer ample ⟨width, order, false⟩ small).bind_left _

theorem agrees_signed (order : ByteOrder) {width : Nat} (small : width ≤ maxSequenceSize) :
    (number limit ⟨width, order, true⟩).Agrees (Codec.signed order width).decode :=
  (agrees_integer ample ⟨width, order, true⟩ small).bind_left _

theorem agrees_u64 : (integer limit ⟨8, .little, false⟩).Agrees Codec.u64.decode :=
  agrees_integer ample ⟨8, .little, false⟩ (by decide)

theorem agrees_i64 : (integer limit ⟨8, .little, true⟩).Agrees Codec.i64.decode :=
  agrees_integer ample ⟨8, .little, true⟩ (by decide)

theorem agrees_truth : (truth limit).Agrees Codec.bool.decode := by
  refine Agrees.trans ((agrees_integer ample ⟨1, .little, false⟩ (by decide)).bind_left _) ?_
  refine Agrees.take fun bytes size => ?_
  obtain ⟨byte, rfl⟩ := List.length_eq_one_iff.mp size
  by_cases zero : byte = 0
  · subst zero
    exact .refl _
  · have nonzero : (byte.toNat : Int) ≠ 0 := by
      intro none
      exact zero (UInt8.toNat_inj.mp (by simpa using none))
    have other : [byte] ≠ [0] := by simpa using zero
    have flags : ((byte.toNat : Int) != 0) = ([byte] != [0]) := by
      rw [bne_iff_ne.mpr nonzero, bne_iff_ne.mpr other]
    refine .of_eq ?_
    simp only [Decoder.bind, ByteOrder.read_singleton, flags, Bool.false_eq_true, if_false]

/-! ### Magnitudes -/

theorem agrees_wide {width : Nat} (shorter : Nat) (small : width ≤ 8) :
    (wide limit width shorter).Agrees
      ((VarInt.decodeWide width shorter).bind fun varInt => .done (varInt.value.toNat : Int)) := by
  have fits : width ≤ maxSequenceSize := Nat.le_trans small (by decide)
  refine Agrees.trans ((agrees_integer ample ⟨width, .little, false⟩ fits).bind_left _) ?_
  refine Agrees.take fun bytes size => .of_eq ?_
  have value : ByteOrder.little.read bytes = bytes.toNat := rfl
  have bound : bytes.toNat < 2 ^ (64 : Nat) := by
    refine Nat.lt_of_lt_of_le bytes.toNat_lt ?_
    rw [size]
    exact Nat.pow_le_pow_right (by decide) small
  by_cases short : bytes.toNat ≤ shorter
  · simp [Decoder.bind, value, short]
    rfl
  · simp [Decoder.bind, value, short]
    omega

theorem agrees_magnitude :
    (magnitude limit).Agrees
      (VarInt.decode.bind fun varInt => .done (varInt.value.toNat : Int)) := by
  refine Agrees.trans ((agrees_integer ample ⟨1, .little, false⟩ (by decide)).bind_left _) ?_
  refine Agrees.take fun bytes size => ?_
  obtain ⟨marker, rfl⟩ := List.length_eq_one_iff.mp size
  have isMarker : ∀ other : UInt8, (marker.toNat : Int) = other.toNat ↔ marker = other := by
    intro other
    rw [Int.ofNat_inj, UInt8.toNat_inj]
  -- The markers as integers on one side, and as bytes on the other.
  change (if (ByteOrder.little.read [marker] : Int) = VarInt.marker64.toNat then
        wide limit 8 0xffffffff
      else if (ByteOrder.little.read [marker] : Int) = VarInt.marker32.toNat then
        wide limit 4 0xffff
      else if (ByteOrder.little.read [marker] : Int) = VarInt.marker16.toNat then
        wide limit 2 0xfc
      else .done (ByteOrder.little.read [marker] : Int)).Agrees
    ((if marker = VarInt.marker64 then VarInt.decodeWide 8 0xffffffff
      else if marker = VarInt.marker32 then VarInt.decodeWide 4 0xffff
      else if marker = VarInt.marker16 then VarInt.decodeWide 2 0xfc
      else .done ⟨UInt64.ofNat marker.toNat⟩).bind fun varInt => .done (varInt.value.toNat : Int))
  rw [ByteOrder.read_singleton]
  by_cases first : marker = VarInt.marker64
  · rw [if_pos ((isMarker VarInt.marker64).mpr first), if_pos first]
    exact agrees_wide ample 0xffffffff (by decide)
  rw [if_neg (mt (isMarker VarInt.marker64).mp first), if_neg first]
  by_cases second : marker = VarInt.marker32
  · rw [if_pos ((isMarker VarInt.marker32).mpr second), if_pos second]
    exact agrees_wide ample 0xffff (by decide)
  rw [if_neg (mt (isMarker VarInt.marker32).mp second), if_neg second]
  by_cases third : marker = VarInt.marker16
  · rw [if_pos ((isMarker VarInt.marker16).mpr third), if_pos third]
    exact agrees_wide ample 0xfc (by decide)
  rw [if_neg (mt (isMarker VarInt.marker16).mp third), if_neg third]
  refine .of_eq ?_
  have bound := marker.toNat_lt
  rw [Decoder.bind, UInt64.toNat_ofNat', Nat.mod_eq_of_lt (by omega)]

theorem agrees_varInt : (varInt limit).Agrees VarInt.decode := by
  refine Agrees.trans ((agrees_magnitude ample).bind_left _) (.of_eq ?_)
  have done : (fun varInt : VarInt =>
      (Decoder.done (varInt.value.toNat : Int)).bind fun value => checked (VarInt.ofInt value))
      = .done := by
    funext varInt
    rw [Decoder.bind, checked_ofInt]
  rw [Decoder.bind_assoc, done, Decoder.bind_done]

/-- Eight bytes always make a mask. -/
theorem agrees_serviceFlags : (serviceFlags limit).Agrees ServiceFlags.codec.decode := by
  refine (agrees_u64 ample).bind Codec.yields_u64.decode.of_parse fun bits fits => .of_eq ?_
  rw [ServiceFlags.ofInt, if_pos fits]
  rfl

theorem agrees_fixedBytes {length : Nat} (small : length ≤ maxSequenceSize) :
    (fixedBytes limit length).Agrees (Codec.fixedBytes length).decode := by
  rw [fixedBytes, bytes_eq ample small]
  refine Agrees.take fun bytes size => .of_eq ?_
  rw [Decoder.bind, Bytes.exactly_of_length size]
  rfl

/-! ### Counts and what they count -/

theorem agrees_count (size : Size) :
    (count limit size).Agrees (Codec.decodeCount size) := by
  refine Agrees.trans ((agrees_magnitude ample).bind_left _) (.of_eq ?_)
  rw [Decoder.bind_assoc, Codec.decodeCount]
  simp only [Decoder.bind, Int.toNat_natCast, places_eq]

/-- Room is asked for only behind the check of the ceiling. -/
theorem agrees_vector {element : Codec α} {strict : Decoder α}
    (same : strict.Agrees element.decode) :
    (vector limit element.elementSize strict).Agrees element.vector.decode := by
  refine (agrees_count ample element.elementSize).bind
    (fun parsed => (Codec.parse_decodeCount_eq_ok parsed).1) fun count small => ?_
  rw [allocate_of_le (Nat.le_trans small ample)]
  exact same.times count

theorem agrees_varBytes : (varBytes limit).Agrees Codec.varBytes.decode := by
  refine (agrees_count ample (.finite 1)).bind
    (fun parsed => (Codec.parse_decodeCount_eq_ok parsed).1) fun count small => ?_
  rw [bytes_eq ample small]
  exact .refl _

theorem agrees_varString : (varString limit).Agrees Codec.varString.decode := by
  refine (agrees_varBytes ample).bind Codec.yields_varBytes.decode.of_parse fun bytes _ => ?_
  rw [Text.ofUtf8]
  cases Text.ofUtf8? bytes with
  | some text => exact .refl _
  | none => exact .refl _

/-- A name is decoded only if it is ASCII, and then it is UTF-8 as well. -/
theorem agrees_commandString : (commandString limit).Agrees Command.codec.decode := by
  rw [commandString, bytes_eq ample (by decide)]
  refine Agrees.take fun field _ => .of_eq ?_
  rw [Command.nameOfField, Decoder.bind]
  dsimp only
  by_cases embedded : (Command.trim field).contains 0 = true
  · rw [if_pos embedded, if_pos embedded]
    rfl
  · rw [if_neg embedded, if_neg embedded]
    by_cases ascii : (Command.trim field).isAscii = true
    · rw [if_pos ascii, if_pos ascii, Text.ofUtf8_of_isAscii ascii]
      rfl
    · rw [if_neg ascii, if_neg ascii]
      rfl

theorem agrees_checkedData : (checkedData limit).Agrees Codec.checkedData.decode := by
  refine Agrees.trans ((agrees_integer ample ⟨4, .little, false⟩ (by decide)).bind_left _) ?_
  refine Agrees.take fun field _ => ?_
  have value : ByteOrder.little.read field = field.toNat := rfl
  simp only [Decoder.bind, Bool.false_eq_true, if_false, value, Int.toNat_natCast, places_eq]
  refine (Agrees.refl _).bind (Codec.sound_checkAllocation field.toNat 1).of_parse
    fun length small => ?_
  rw [bytes_eq ample (by decide)]
  refine Agrees.take fun claimed _ => ?_
  rw [Decoder.bind, bytes_eq ample small]
  refine Agrees.take fun data _ => .of_eq ?_
  have width : (hash256 data).exactly (.int 32) = .ok (hash256 data) :=
    Bytes.exactly_of_length (length_hash256 data)
  rw [Decoder.bind, width]
  rfl

/-! ### Records -/

theorem agrees_coded {width : Nat} (small : width ≤ maxSequenceSize) (all : List α)
    (code : α → Nat) (unknown : Number → ConsensusError) :
    (coded limit width all code unknown).Agrees (Codec.coded width all code unknown).decode :=
  (agrees_unsigned ample .little small).bind_left _

theorem agrees_network : (network limit).Agrees Network.codec.decode := by
  rw [Network.codec_eq_coded]
  exact agrees_coded ample (by decide) _ _ _

theorem agrees_inventoryType : (inventoryType limit).Agrees InventoryType.codec.decode := by
  rw [InventoryType.codec_eq_coded]
  exact agrees_coded ample (by decide) _ _ _

theorem agrees_rejectReason : (rejectReason limit).Agrees RejectReason.codec.decode := by
  rw [RejectReason.codec_eq_coded]
  exact agrees_coded ample (by decide) _ _ _

theorem agrees_address : (address limit).Agrees Address.codec.decode := by
  have group : (number limit ⟨2, .big, false⟩).Agrees Codec.u16Network.decode :=
    agrees_unsigned ample .big (by decide)
  rw [address, Row.read_eq]
  exact ((agrees_serviceFlags ample).pair ((group.times Address.groupCount).pair group)).bind_left _

theorem agrees_inventory : (inventory limit).Agrees Inventory.codec.decode := by
  rw [inventory, Row.read_eq]
  exact ((agrees_inventoryType ample).pair (agrees_fixedBytes ample (by decide))).bind_left _

theorem agrees_inventoryList : (inventoryList limit).Agrees Inventory.listCodec.decode :=
  agrees_vector ample (agrees_inventory ample)

theorem agrees_versionMessage : (versionMessage limit).Agrees VersionMessage.codec.decode := by
  rw [versionMessage, Row.read_eq]
  exact ((agrees_unsigned ample .little (by decide)).pair
    ((agrees_serviceFlags ample).pair ((agrees_i64 ample).pair ((agrees_address ample).pair
      ((agrees_address ample).pair ((agrees_u64 ample).pair ((agrees_varString ample).pair
        ((agrees_signed ample .little (by decide)).pair (agrees_truth ample))))))))).bind_left _

theorem agrees_reject : (reject limit).Agrees Reject.codec.decode := by
  rw [reject, Row.read_eq]
  exact ((agrees_varString ample).pair ((agrees_rejectReason ample).pair
    ((agrees_varString ample).pair (agrees_fixedBytes ample (by decide))))).bind_left _

theorem agrees_peers : (peers limit).Agrees NetworkMessage.peersCodec.decode := by
  refine agrees_vector ample ?_
  exact (agrees_unsigned ample .little (by decide)).pair (agrees_address ample)

/-! ### Frames -/

theorem read_layout (command : Command) (data : Bytes) :
    (layout limit command).read data = command.layout.read data := by
  have carried : ∀ {β : Type} {codec : Codec β} {strict : Decoder β} (message : β → NetworkMessage),
      strict.Agrees codec.decode →
      Layout.read (.carries { codec with decode := strict } message) data
        = Layout.read (.carries codec message) data := by
    intro β codec strict message same
    rw [Layout.read, Layout.read, same.deserialize data]
  cases command with
  | version => exact carried _ (agrees_versionMessage ample)
  | addr => exact carried _ (agrees_peers ample)
  | inv => exact carried _ (agrees_inventoryList ample)
  | getdata => exact carried _ (agrees_inventoryList ample)
  | notfound => exact carried _ (agrees_inventoryList ample)
  | ping => exact carried _ (agrees_u64 ample)
  | pong => exact carried _ (agrees_u64 ample)
  | reject => exact carried _ (agrees_reject ample)
  | verack => rfl
  | getaddr => rfl
  | sendheaders => rfl

theorem payload_eq (name : Text) (data : Bytes) :
    payload limit name data = NetworkMessage.decodePayload name data := by
  rw [payload, NetworkMessage.decodePayload]
  cases Command.ofName? name with
  | none => rfl
  | some command =>
    dsimp only
    rw [read_layout ample, NetworkMessage.ofPayload_eq_read]

theorem agrees_rawMessage : (rawMessage limit).Agrees RawMessage.codec.decode := by
  refine (agrees_unsigned ample .little (by decide)).bind
    (Codec.yields_unsigned .little 4).decode.of_parse fun magic _ => ?_
  refine (agrees_commandString ample).bind Command.yields_codec.decode.of_parse fun name _ => ?_
  refine (agrees_checkedData ample).bind Codec.yields_checkedData.decode.of_parse fun data _ => ?_
  rw [payload_eq ample]
  exact .refl _

end Agreement

/-- What is held for a field is the same if its value is. -/
theorem agrees_assigned {α : Type} {inner : Codec α} {strict : Decoder α}
    {objects : Bool} (same : strict.Agrees inner.decode)
    (stray : objects = false → Except Fault α) (name : FieldName) :
    (assigned objects strict name).Agrees (inner.under stray name).decode := by
  cases name with
  | ordinary text apart => exact same
  | prototype => exact same.bind_left _

end Strict

/-! ## Formats -/

mutual

/-- On all bytes, a format of supported leaves is read as if no check could fail. -/
theorem Format.agrees_strict {limit : Nat} (ample : maxSequenceSize ≤ limit) :
    (format : Format) → format.every Format.isSupported = true →
      (format.strict limit).Agrees format.codec.decode
  | .u8, _ => Strict.agrees_unsigned ample .little (by decide)
  | .u16, _ => Strict.agrees_unsigned ample .little (by decide)
  | .u32, _ => Strict.agrees_unsigned ample .little (by decide)
  | .u64, _ => Strict.agrees_u64 ample
  | .i8, _ => Strict.agrees_signed ample .little (by decide)
  | .i16, _ => Strict.agrees_signed ample .little (by decide)
  | .i32, _ => Strict.agrees_signed ample .little (by decide)
  | .i64, _ => Strict.agrees_i64 ample
  | .u16Network, _ => Strict.agrees_unsigned ample .big (by decide)
  | .truth false, _ => Strict.agrees_truth ample
  | .truth true, _ => (Strict.agrees_truth ample).bind_left _
  | .varInt, _ => Strict.agrees_varInt ample
  | .fixedBytes length, supported => by
    have width : length ∈ Format.fixedWidths := of_decide_eq_true supported
    have small : ∀ width ∈ Format.fixedWidths, width ≤ maxSequenceSize := by decide
    exact Strict.agrees_fixedBytes ample (small length width)
  | .varBytes, _ => Strict.agrees_varBytes ample
  | .varString, _ => Strict.agrees_varString ample
  | .commandString, _ => Strict.agrees_commandString ample
  | .checkedData, _ => Strict.agrees_checkedData ample
  | .network, _ => Strict.agrees_network ample
  | .serviceFlags, _ => Strict.agrees_serviceFlags ample
  | .inventoryType, _ => Strict.agrees_inventoryType ample
  | .rejectReason, _ => Strict.agrees_rejectReason ample
  | .address, _ => Strict.agrees_address ample
  | .inventory, _ => Strict.agrees_inventory ample
  | .inventoryList, _ => Strict.agrees_inventoryList ample
  | .versionMessage, _ => Strict.agrees_versionMessage ample
  | .reject, _ => Strict.agrees_reject ample
  | .rawMessage, _ => Strict.agrees_rawMessage ample
  | .broken .., supported => by cases supported
  | .vector element, supported =>
    Strict.agrees_vector ample (Format.agrees_strict ample element supported)
  | .pair first second, supported => by
    obtain ⟨left, right⟩ := Bool.and_eq_true_iff.mp supported
    exact (Format.agrees_strict ample first left).pair (Format.agrees_strict ample second right)
  | .record fields, supported => by
    have same := Fields.agrees_plain ample fields supported (.finite 0)
    rw [← Row.read_eq] at same
    exact same

theorem Fields.agrees_plain {limit : Nat} (ample : maxSequenceSize ≤ limit) :
    (fields : Fields) → fields.every Format.isSupported = true → (earlier : Size) →
      (fields.row limit).plain.Agrees (fields.codecBehind earlier).decode
  | .nil, _, _ => .refl _
  | .cons name format rest, supported, earlier => by
    obtain ⟨here, behind⟩ := Bool.and_eq_true_iff.mp supported
    have others := Fields.agrees_plain ample rest behind (earlier + format.codec.elementSize)
    have held := Strict.agrees_assigned (Format.agrees_strict ample format here)
      format.stray name
    exact held.pair others

end

namespace Decoder

variable {α : Type} {decoder : Decoder α} {bytes : Bytes}

theorem tryDeserialize_eq_ok_iff {decoded : Decoded α} :
    decoder.tryDeserialize bytes = .ok (.ok decoded)
      ↔ decoder.deserialize bytes = .ok decoded.value ∧ decoded.consumed = bytes.length := by
  obtain ⟨value, consumed⟩ := decoded
  rw [tryDeserialize]
  cases decoder.deserialize bytes with
  | ok found => simp [eq_comm]
  | error failure => cases failure <;> simp

theorem tryDeserialize_eq_error_iff {error : ConsensusError} :
    decoder.tryDeserialize bytes = .ok (.error error)
      ↔ decoder.deserialize bytes = .error (.consensus error) := by
  rw [tryDeserialize]
  cases decoder.deserialize bytes with
  | ok found => simp
  | error failure => cases failure <;> simp

/-- An attempt to read with a sound decoder always has an outcome. -/
theorem Sound.exists_tryDeserialize {domain : α → Prop} (sound : decoder.Sound domain)
    (bytes : Bytes) : ∃ outcome, decoder.tryDeserialize bytes = .ok outcome := by
  have ends := sound.deserialize bytes
  rw [Decoder.tryDeserialize]
  cases outcome : decoder.deserialize bytes with
  | ok value => exact ⟨_, rfl⟩
  | error failure =>
    rw [outcome] at ends
    cases failure with
    | consensus error => exact ⟨_, rfl⟩
    | fault fault => cases ends

end Decoder

namespace Format

/-- Reading any bytes in a format of supported leaves, with every check in place, ends in
a value of the format or in a consensus error, and never in a fault. So an attempt to
read always has an outcome: the value, if reading ends in one that spans the bytes, or
the very error that reading ends in. The records keep what is assigned to them, and
elements have sizes in bytes. -/
theorem tryDeserialize_total {limit : Nat} (ample : maxSequenceSize ≤ limit) (format : Format)
    (supported : format.every isSupported = true) (ordinary : format.isOrdinary = true)
    (sized : format.isSized = true) (bytes : Bytes) :
    (format.strict limit).deserializePartial bytes = format.codec.decode.deserializePartial bytes
      ∧ (format.strict limit).tryDeserialize bytes = format.codec.decode.tryDeserialize bytes
      ∧ ((∃ value consumed, format.codec.decode.deserializePartial bytes = .ok ⟨value, consumed⟩
            ∧ format.WellFormed value)
          ∨ ∃ error, format.codec.decode.deserializePartial bytes = .error (.consensus error)
            ∧ ∀ flag, error ≠ .unsupportedSegwitFlag flag)
      ∧ (∃ outcome, format.codec.decode.tryDeserialize bytes = .ok outcome)
      ∧ (∀ decoded, format.codec.decode.tryDeserialize bytes = .ok (.ok decoded)
          ↔ format.codec.decode.deserialize bytes = .ok decoded.value
            ∧ decoded.consumed = bytes.length)
      ∧ ∀ error, format.codec.decode.tryDeserialize bytes = .ok (.error error)
          ↔ format.codec.decode.deserialize bytes = .error (.consensus error) := by
  have same := agrees_strict ample format supported
  have sound := (format.yields supported ordinary sized).decode
  refine ⟨same.deserializePartial bytes, same.tryDeserialize bytes, ?_,
    sound.exists_tryDeserialize bytes, fun _ => Decoder.tryDeserialize_eq_ok_iff,
    fun _ => Decoder.tryDeserialize_eq_error_iff⟩
  have ends := sound.outcome bytes
  rw [Decoder.deserializePartial_eq]
  generalize format.codec.decode.parse bytes = result at ends
  obtain ⟨outcome, rest⟩ := result
  cases outcome with
  | ok value => exact .inl ⟨value, _, rfl, ends⟩
  | error failure =>
    cases failure with
    | fault fault => cases ends
    | consensus error =>
      refine .inr ⟨error, rfl, ?_⟩
      intro flag isFlag
      subst isFlag
      exact ends

/-- With rooms of up to `2 ^ 32 - 1` places, two magnitudes and a label are read as such,
and a magnitude in a longer form than it needs is given as an error. -/
theorem tryDeserialize_total_ledger :
    (ledger.strict 0xffffffff).tryDeserialize ledgerBytes = .ok (.ok ⟨ledgerValue, 14⟩)
      ∧ (ledger.strict 0xffffffff).tryDeserialize [2, 0xfd, 1, 0]
        = .ok (.error .nonMinimalVarInt) := by
  have ample : maxSequenceSize ≤ 0xffffffff := by decide
  have supported : ledger.every isSupported = true := rfl
  constructor
  · obtain ⟨-, strict, -, -, spans, -⟩ :=
      tryDeserialize_total ample ledger supported rfl rfl ledgerBytes
    have whole : ledger.codec.decode.deserialize ledgerBytes = .ok ledgerValue :=
      Decoder.deserialize_eq_ok_iff.mpr rfl
    exact strict.trans ((spans ⟨ledgerValue, 14⟩).mpr ⟨whole, rfl⟩)
  · obtain ⟨-, strict, -, -, -, fails⟩ :=
      tryDeserialize_total ample ledger supported rfl rfl [2, 0xfd, 1, 0]
    have refused : ledger.codec.decode.deserialize [2, 0xfd, 1, 0]
        = .error (.consensus .nonMinimalVarInt) := Decoder.deserialize_of_error rfl
    exact strict.trans ((fails .nonMinimalVarInt).mpr refused)

/-- Elements of infinite size make a fault of the empty sequence, and under the name of the
prototype a byte is read as no value of the record. -/
theorem tryDeserialize_faults :
    ((vector (tower 1021)).every isSupported = true
        ∧ (vector (tower 1021)).codec.decode.tryDeserialize [0] = .error .infiniteSize)
      ∧ masked.every isSupported = true
      ∧ masked.codec.decode.tryDeserialize [5] = .ok (.ok ⟨unmasked, 1⟩)
      ∧ ¬masked.WellFormed unmasked := by
  refine ⟨⟨every_tower rfl 1021, ?_⟩, rfl, ?_, fun meant => meant.1⟩
  · have outcome : (vector (tower 1021)).codec.decode.deserialize [0]
        = .error (.fault .infiniteSize) :=
      Decoder.deserialize_of_error (Codec.parse_vector_of_infinite elementSize_tower ⟨0⟩ [])
    rw [Decoder.tryDeserialize, outcome]
  · exact Decoder.tryDeserialize_eq_ok_iff.mpr ⟨Decoder.deserialize_eq_ok_iff.mpr rfl, rfl⟩

end Format

end PeerWire
