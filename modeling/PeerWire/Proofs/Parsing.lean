import PeerWire.Serialize

/-!
# What a decoder makes of a byte string

A decoder is run over a reader, which fills targets from a source and counts. Over
a byte string all of that comes to one function: a decoder either ends with a value
or with a failure, and some bytes are left. `Decoder.parse` is this function, by
recursion on the decoder alone.

Running a decoder over a cursor agrees with it in every respect (`run_cursor`): the
outcome is that of `parse`, and the cursor and the count have moved on by as many
bytes as `parse` has taken. What is left is always an end of what was given
(`parse_suffix`), and one decoder behind another parses what the first one left
(`parse_bind`). The entry points that read byte strings are therefore functions of
`parse` (`deserializePartial_eq`, `deserialize_eq_ok_iff`).
-/

set_option autoImplicit false

namespace PeerWire

/-! ## Cursors and readers that move on -/

namespace Cursor

/-- The cursor behind the next bytes, or at the end if there are fewer. -/
def skip (count : Nat) (cursor : Cursor) : Cursor :=
  (cursor.read count).2

@[simp] theorem rest_ofBytes (bytes : Bytes) : (ofBytes bytes).rest = bytes := rfl

@[simp] theorem rest_skip (count : Nat) (cursor : Cursor) :
    (cursor.skip count).rest = cursor.rest.drop count := rfl

@[simp] theorem offset_skip (count : Nat) (cursor : Cursor) :
    (cursor.skip count).offset = cursor.offset + min count cursor.rest.length := by
  change cursor.offset + (cursor.rest.take count).length = _
  rw [List.length_take]

theorem read_eq (room : Nat) (cursor : Cursor) :
    ByteSource.read room cursor = (.ok (.honest (cursor.rest.take room)), cursor.skip room) := rfl

/-- Cursors agree when their buffers and offsets do: the bytes ahead follow. -/
theorem ext_offset {first second : Cursor} (buffer : first.buffer = second.buffer)
    (offset : first.offset = second.offset) : first = second := by
  obtain ⟨firstBuffer, firstOffset, firstRest, _, firstEq⟩ := first
  obtain ⟨secondBuffer, secondOffset, secondRest, _, secondEq⟩ := second
  cases buffer
  cases offset
  cases firstEq
  cases secondEq
  rfl

@[simp] theorem skip_zero (cursor : Cursor) : cursor.skip 0 = cursor := by
  refine ext_offset rfl ?_
  rw [offset_skip, Nat.zero_min, Nat.add_zero]

/-- Skipping in two steps is skipping at once. -/
theorem skip_skip {first second : Nat} (cursor : Cursor) (held : first ≤ cursor.rest.length) :
    (cursor.skip first).skip second = cursor.skip (first + second) := by
  refine ext_offset rfl ?_
  rw [offset_skip, offset_skip, offset_skip, rest_skip, List.length_drop]
  omega

end Cursor

namespace Reader

/-- The reader behind the next bytes of its cursor. -/
def skip (count : Nat) (reader : Reader Cursor) : Reader Cursor :=
  { reader with source := reader.source.skip count, consumed := reader.consumed + count }

theorem skip_skip {first second : Nat} (reader : Reader Cursor)
    (held : first ≤ reader.source.rest.length) :
    (reader.skip first).skip second = reader.skip (first + second) := by
  simp only [skip, Cursor.skip_skip reader.source held, Nat.add_assoc]

@[simp] theorem skip_zero (reader : Reader Cursor) : reader.skip 0 = reader := by
  simp only [skip, Cursor.skip_zero, Nat.add_zero]

theorem backed_ofSource {σ : Type} (source : σ) : (ofSource source).backed = true := rfl

/-- A count that bytes back up is added as it is. -/
theorem advance_honest {σ : Type} {reader : Reader σ} (backed : reader.backed = true) (source : σ)
    (bytes : Bytes) :
    reader.advance source (.honest bytes)
      = { reader with source, consumed := reader.consumed + bytes.length } := by
  obtain ⟨old, consumed, isBacked⟩ := reader
  cases backed
  have count : (Delivery.honest bytes).count.toNat = bytes.length := Int.toNat_natCast _
  simp only [advance, Delivery.isBacked_honest, Bool.and_self, if_true, count]

/-- Bytes laid over a room that holds no more than its places are found at its front, and
what the room held stands behind them. -/
theorem front_overlay {places : Nat} {bytes room : Bytes} (fits : bytes.length ≤ places)
    (size : room.length ≤ places) :
    front bytes.length (overlay places bytes room) = bytes
      ∧ (overlay places bytes room).drop bytes.length = room.drop bytes.length := by
  have whole : (bytes ++ room.drop bytes.length).length ≤ places := by
    rw [List.length_append, List.length_drop]
    omega
  have held : bytes.length ≤ (bytes ++ room.drop bytes.length).length := by
    rw [List.length_append]
    exact Nat.le_add_right _ _
  rw [overlay, List.take_of_length_le whole, List.drop_left, front_eq_take held, List.take_left]
  exact ⟨rfl, rfl⟩

/-- One read that brings bytes: they are laid behind what is filled, and the room behind them
is as it was. -/
theorem fillFrom_of_honest {σ : Type} [ByteSource σ] {reader : Reader σ} {missing : Nat}
    {bytes room : Bytes} (filled : Bytes) (backed : reader.backed = true)
    (brings : (ByteSource.read (missing + 1) reader.source).1 = .ok (.honest bytes))
    (positive : 0 < bytes.length) (fits : bytes.length ≤ missing + 1)
    (size : room.length ≤ missing + 1) :
    reader.fillFrom (missing + 1) filled room
      = fillFrom (missing + 1 - bytes.length) (filled ++ bytes) (room.drop bytes.length)
          { reader with
            source := (ByteSource.read (missing + 1) reader.source).2
            consumed := reader.consumed + bytes.length } := by
  have counted : ¬ (Delivery.honest bytes).count ≤ 0 := by
    simp only [Delivery.honest]
    omega
  have count : (Delivery.honest bytes).count.toNat = bytes.length := Int.toNat_natCast _
  have isBytes : (Delivery.honest bytes).bytes = bytes := rfl
  rw [fillFrom]
  generalize ByteSource.read (missing + 1) reader.source = reading at brings
  obtain ⟨delivery, source⟩ := reading
  cases brings
  simp only [if_neg counted, advance_honest backed, count, isBytes, Nat.min_eq_left fits,
    front_overlay fits size]

/-- One read of a cursor brings the front of what is ahead, and moves behind it. -/
theorem read_of_front {room : Nat} {front : Bytes} {cursor : Cursor}
    (isFront : cursor.rest.take room = front) :
    ByteSource.read room cursor = (.ok (.honest front), cursor.skip front.length) := by
  have size := congrArg List.length isFront
  rw [List.length_take] at size
  rw [Cursor.read_eq, isFront]
  refine Prod.ext rfl (Cursor.ext_offset rfl ?_)
  rw [Cursor.offset_skip, Cursor.offset_skip]
  omega

/-- One read of a cursor with bytes ahead. -/
theorem fillFrom_of_rest {missing : Nat} {front room : Bytes} {reader : Reader Cursor}
    (filled : Bytes) (backed : reader.backed = true)
    (isFront : reader.source.rest.take (missing + 1) = front) (positive : 0 < front.length)
    (size : room.length ≤ missing + 1) :
    reader.fillFrom (missing + 1) filled room
      = (reader.skip front.length).fillFrom (missing + 1 - front.length) (filled ++ front)
          (room.drop front.length) := by
  have brings := read_of_front isFront
  have fits : front.length ≤ missing + 1 := by
    rw [← isFront]
    exact List.length_take_le _ _
  rw [fillFrom_of_honest filled backed (congrArg Prod.fst brings) positive fits size, brings]
  rfl

/-- A cursor at its end leaves the room as it was. -/
theorem fillFrom_of_rest_nil {missing : Nat} {room : Bytes} {reader : Reader Cursor}
    (filled : Bytes) (ended : reader.source.rest = []) (size : room.length ≤ missing + 1) :
    reader.fillFrom (missing + 1) filled room
      = ⟨.error (.io (.exhausted (filled.length + (missing + 1)) filled.length)), filled ++ room,
          reader⟩ := by
  have nothing : reader.source.rest.take (missing + 1) = [] := by rw [ended, List.take_nil]
  have untouched : overlay (missing + 1) [] room = room := by
    rw [overlay, List.length_nil, List.drop_zero, List.nil_append, List.take_of_length_le size]
  rw [fillFrom, read_of_front nothing, List.length_nil, Cursor.skip_zero]
  simp only [Delivery.honest, untouched, List.length_nil, Int.ofNat_zero, Int.le_refl, if_true]

section Target

variable {count : Nat} {room : Bytes} {reader : Reader Cursor} (backed : reader.backed = true)
  (size : room.length ≤ count)
include backed size

/-- A cursor with enough bytes fills a room at once. -/
theorem fillFrom_cursor_of_le (enough : count ≤ reader.source.rest.length) :
    reader.fillFrom count [] room
      = ⟨.ok (), reader.source.rest.take count, reader.skip count⟩ := by
  cases count with
  | zero =>
    rw [List.eq_nil_of_length_eq_zero (Nat.le_zero.mp size), skip_zero, fillFrom]
    rfl
  | succ missing =>
    have whole : (reader.source.rest.take (missing + 1)).length = missing + 1 := by
      rw [List.length_take, Nat.min_eq_left enough]
    have filled := fillFrom_of_rest [] backed rfl (by rw [whole]; exact missing.succ_pos) size
    rw [filled, whole, Nat.sub_self, fillFrom, List.drop_of_length_le size, List.nil_append,
      List.append_nil]

/-- A cursor with too few bytes puts all of them into a room, and then nothing. -/
theorem fillFrom_cursor_of_lt (short : reader.source.rest.length < count) :
    reader.fillFrom count [] room
      = ⟨.error (.io (.exhausted count reader.source.rest.length)),
          reader.source.rest ++ room.drop reader.source.rest.length,
          reader.skip reader.source.rest.length⟩ := by
  obtain ⟨missing, rfl⟩ : ∃ missing, count = missing + 1 := ⟨count - 1, by omega⟩
  rcases Nat.eq_zero_or_pos reader.source.rest.length with ended | positive
  · have nothing := List.length_eq_zero_iff.mp ended
    rw [fillFrom_of_rest_nil [] nothing size, nothing, List.length_nil, skip_zero, List.drop_zero,
      Nat.zero_add]
  · have all : reader.source.rest.take (missing + 1) = reader.source.rest :=
      List.take_of_length_le (Nat.le_of_lt short)
    have left : (reader.skip reader.source.rest.length).source.rest = [] := by
      rw [skip, Cursor.rest_skip, List.drop_length]
    obtain ⟨gap, gapEq⟩ : ∃ gap, missing + 1 - reader.source.rest.length = gap + 1 :=
      ⟨missing - reader.source.rest.length, by omega⟩
    have behind : (room.drop reader.source.rest.length).length ≤ gap + 1 := by
      rw [List.length_drop]
      omega
    have total : reader.source.rest.length + (gap + 1) = missing + 1 := by omega
    rw [fillFrom_of_rest [] backed all positive size, gapEq, fillFrom_of_rest_nil _ left behind,
      List.nil_append, total]

end Target

section Cursor

variable {reader : Reader Cursor} (backed : reader.backed = true)
include backed

/-- A cursor with enough bytes delivers them at once. -/
theorem readBytes_of_le {count : Nat} (enough : count ≤ reader.source.rest.length) :
    reader.readBytes count = (.ok (reader.source.rest.take count), reader.skip count) := by
  rw [readBytes, fillFrom_cursor_of_le backed (Nat.zero_le count) enough]

/-- A cursor with too few bytes delivers all of them, and then nothing. -/
theorem readBytes_of_lt {count : Nat} (short : reader.source.rest.length < count) :
    reader.readBytes count
      = (.error (.io (.exhausted count reader.source.rest.length)),
          reader.skip reader.source.rest.length) := by
  rw [readBytes, fillFrom_cursor_of_lt backed (Nat.zero_le count) short]

end Cursor

/-! ## Any source -/

section Source

variable {σ : Type} [ByteSource σ]

/-- The first places of a room are as many as asked for. -/
theorem length_front_room (count : Nat) (room : Bytes) : (front count room).length = count := by
  rw [front, List.rightpad, List.length_append, List.length_replicate, List.length_take]
  omega

/-- A target that is filled has its length, whatever the source did to fill it. -/
theorem length_of_fillFrom {missing : Nat} {filled room : Bytes} {reader : Reader σ}
    (size : room.length ≤ missing)
    (complete : (reader.fillFrom missing filled room).outcome = .ok ()) :
    (reader.fillFrom missing filled room).target.length = filled.length + missing := by
  fun_induction fillFrom missing filled room reader with
  | case1 filled room reader =>
    rw [List.length_append]
    omega
  | case2 => cases complete
  | case3 => cases complete
  | case4 missing filled room reader delivery source read laid positive count ih =>
    have within : laid.length ≤ missing + 1 := List.length_take_le _ _
    rw [ih (by rw [List.length_drop]; omega) complete, List.length_append, length_front_room]
    omega

/-- Bytes are read in the number asked for, whatever the source did to bring them. -/
theorem length_of_readBytes {count : Nat} {reader after : Reader σ} {bytes : Bytes}
    (read : reader.readBytes count = (.ok bytes, after)) : bytes.length = count := by
  rw [readBytes] at read
  have size : (reader.fillFrom count [] []).outcome = .ok () →
      (reader.fillFrom count [] []).target.length = 0 + count :=
    length_of_fillFrom (Nat.zero_le count)
  generalize reader.fillFrom count [] [] = filling at read size
  obtain ⟨outcome, target, reached⟩ := filling
  cases outcome with
  | error error => cases read
  | ok done =>
    cases read
    rw [size rfl, Nat.zero_add]

end Source

end Reader

/-! ## Parsing -/

namespace Decoder

variable {α β : Type}

/-- What a decoder makes of a byte string: the value or the failure, and the bytes
left. A decoder that asks for more bytes than there are leaves none. -/
def parse : Decoder α → Bytes → Except Failure α × Bytes
  | .done value, bytes => (.ok value, bytes)
  | .fail failure, bytes => (.error failure, bytes)
  | .take count next, bytes =>
    if count ≤ bytes.length then (next (bytes.take count)).parse (bytes.drop count)
    else (.error (.consensus (.io (.exhausted count bytes.length))), [])
  | .reserve _ _ next, bytes => next.parse bytes

@[simp] theorem parse_done (value : α) (bytes : Bytes) :
    (done value).parse bytes = (.ok value, bytes) := rfl

@[simp] theorem parse_reserve (count : Nat) (size : Size) (next : Decoder α)
    (bytes : Bytes) :
    (reserve count size next).parse bytes = next.parse bytes := rfl

/-- Taking as many bytes as there are, or fewer. -/
theorem parse_take_of_le {count : Nat} {bytes : Bytes} (held : count ≤ bytes.length)
    (next : Bytes → Decoder α) :
    (take count next).parse bytes = (next (bytes.take count)).parse (bytes.drop count) := by
  rw [parse, if_pos held]

/-- Taking the bytes that stand in front of others. -/
theorem parse_take_append {count : Nat} {front : Bytes} (size : front.length = count)
    (next : Bytes → Decoder α) (suffix : Bytes) :
    (take count next).parse (front ++ suffix) = (next front).parse suffix := by
  have enough : count ≤ (front ++ suffix).length := by
    rw [List.length_append, size]
    exact Nat.le_add_right _ _
  rw [parse, if_pos enough, List.take_left' size, List.drop_left' size]

/-- Taking more bytes than there are. -/
theorem parse_take_of_lt {count : Nat} {bytes : Bytes} (short : bytes.length < count)
    (next : Bytes → Decoder α) :
    (take count next).parse bytes
      = (.error (.consensus (.io (.exhausted count bytes.length))), []) := by
  rw [parse, if_neg (Nat.not_le.mpr short)]

/-- A decoder that takes bytes ends with a value only if the bytes are there. -/
theorem parse_take_eq_ok {count : Nat} {next : Bytes → Decoder α} {bytes rest : Bytes} {value : α}
    (parsed : (take count next).parse bytes = (.ok value, rest)) :
    ∃ front suffix, bytes = front ++ suffix ∧ front.length = count
      ∧ (next front).parse suffix = (.ok value, rest) := by
  rw [parse] at parsed
  split at parsed
  · next enough =>
    exact ⟨bytes.take count, bytes.drop count, (List.take_append_drop count bytes).symm,
      by rw [List.length_take, Nat.min_eq_left enough], parsed⟩
  · cases parsed

/-- One decoder behind another parses what the first one left. -/
theorem parse_bind (decoder : Decoder α) (next : α → Decoder β) (bytes : Bytes) :
    (decoder.bind next).parse bytes
      = match decoder.parse bytes with
        | (.ok value, rest) => (next value).parse rest
        | (.error failure, rest) => (.error failure, rest) := by
  induction decoder generalizing bytes with
  | done value => rfl
  | fail failure => rfl
  | take count rest ih =>
    rw [bind, parse, parse]
    split
    · exact ih _ _
    · rfl
  | reserve count size rest ih => exact ih bytes

theorem parse_bind_of_ok {decoder : Decoder α} {bytes rest : Bytes} {value : α}
    (parsed : decoder.parse bytes = (.ok value, rest)) (next : α → Decoder β) :
    (decoder.bind next).parse bytes = (next value).parse rest := by
  rw [parse_bind, parsed]

theorem parse_bind_of_error {decoder : Decoder α} {bytes : Bytes} {failure : Failure}
    (parsed : (decoder.parse bytes).1 = .error failure) (next : α → Decoder β) :
    (decoder.bind next).parse bytes = (.error failure, (decoder.parse bytes).2) := by
  rw [parse_bind]
  generalize decoder.parse bytes = result at parsed
  obtain ⟨outcome, rest⟩ := result
  cases parsed
  rfl

/-- A decoder behind another ends with a value only if both do. -/
theorem parse_bind_eq_ok {decoder : Decoder α} {next : α → Decoder β} {bytes rest : Bytes}
    {value : β} (parsed : (decoder.bind next).parse bytes = (.ok value, rest)) :
    ∃ middle left, decoder.parse bytes = (.ok middle, left)
      ∧ (next middle).parse left = (.ok value, rest) := by
  rw [parse_bind] at parsed
  split at parsed
  · next middle left first => exact ⟨middle, left, first, parsed⟩
  · cases parsed

/-- The bytes left are an end of the bytes given. -/
theorem parse_suffix (decoder : Decoder α) (bytes : Bytes) : (decoder.parse bytes).2 <:+ bytes := by
  induction decoder generalizing bytes with
  | done value => exact List.suffix_refl bytes
  | fail failure => exact List.suffix_refl bytes
  | take count rest ih =>
    rw [parse]
    split
    · exact (ih _ _).trans (List.drop_suffix count bytes)
    · exact List.nil_suffix
  | reserve count size rest ih => exact ih bytes

/-! ## Checked values -/

theorem parse_ofExcept_eq_ok {checked : Except ConsensusError α} {bytes rest : Bytes} {value : α}
    (parsed : (ofExcept checked).parse bytes = (.ok value, rest)) :
    checked = .ok value ∧ bytes = rest := by
  cases checked with
  | ok found =>
    cases parsed
    exact ⟨rfl, rfl⟩
  | error error => cases parsed

theorem parse_ofResult_eq_ok {result : Except Failure α} {bytes rest : Bytes} {value : α}
    (parsed : (ofResult result).parse bytes = (.ok value, rest)) :
    result = .ok value ∧ bytes = rest := by
  cases result with
  | ok found =>
    cases parsed
    exact ⟨rfl, rfl⟩
  | error failure => cases parsed

/-! ## Repetition -/

/-- Values behind others are collected as they would be alone. -/
theorem collect_eq (element : Decoder α) (count : Nat) (earlier : List α) :
    collect element count earlier
      = (times count element).bind fun values => .done (earlier.reverse ++ values) := by
  induction count generalizing earlier with
  | zero => simp only [times, collect, bind, List.reverse_nil, List.append_nil]
  | succ count ih =>
    rw [times, collect, collect, bind_assoc]
    congr
    funext value
    rw [ih (value :: earlier), ih [value], bind_assoc]
    simp only [bind, List.reverse_cons, List.reverse_nil, List.nil_append, List.append_assoc]

/-- Running a decoder once more reads one more value in front. -/
theorem times_succ (count : Nat) (element : Decoder α) :
    times (count + 1) element
      = element.bind fun value => (times count element).bind fun values =>
          .done (value :: values) := by
  rw [times, collect]
  congr
  funext value
  rw [collect_eq]
  rfl

/-! ## Running over a cursor -/

/-- Running a decoder over a cursor is parsing the bytes ahead and moving on by as
many as are taken. -/
theorem run_cursor (decoder : Decoder α) (reader : Reader Cursor) (backed : reader.backed = true) :
    decoder.run reader
      = ((decoder.parse reader.source.rest).1,
          reader.skip (reader.source.rest.length
            - (decoder.parse reader.source.rest).2.length)) := by
  induction decoder generalizing reader with
  | done value => simp only [run, parse, Nat.sub_self, Reader.skip_zero]
  | fail failure => simp only [run, parse, Nat.sub_self, Reader.skip_zero]
  | take count next ih =>
    by_cases enough : count ≤ reader.source.rest.length
    · have left := (parse_suffix (next (reader.source.rest.take count))
        (reader.source.rest.drop count)).length_le
      have ahead : (reader.skip count).source.rest = reader.source.rest.drop count := rfl
      rw [run, Reader.readBytes_of_le backed enough, parse, if_pos enough]
      dsimp only
      rw [ih _ (reader.skip count) backed, ahead, Reader.skip_skip reader enough]
      rw [List.length_drop] at left ⊢
      congr 2
      omega
    · have short := Nat.not_le.mp enough
      rw [run, Reader.readBytes_of_lt backed short, parse_take_of_lt short, List.length_nil,
        Nat.sub_zero]
  | reserve count size next ih => exact ih reader backed

/-- What a decoder comes to over a byte string, with the reader afterwards. -/
def runOver (decoder : Decoder α) (bytes : Bytes) : Except Failure α × Reader Cursor :=
  decoder.run (.ofSource (Cursor.ofBytes bytes))

/-- Over a byte string a decoder comes to what it parses, and the reader counts the bytes that
are not left. -/
theorem runOver_eq (decoder : Decoder α) (bytes : Bytes) :
    decoder.runOver bytes
      = ((decoder.parse bytes).1,
          (Reader.ofSource (Cursor.ofBytes bytes)).skip
            (bytes.length - (decoder.parse bytes).2.length)) :=
  run_cursor decoder _ (Reader.backed_ofSource _)

theorem consumed_runOver (decoder : Decoder α) (bytes : Bytes) :
    (decoder.runOver bytes).2.consumed = bytes.length - (decoder.parse bytes).2.length := by
  rw [runOver_eq]
  exact Nat.zero_add _

/-! ## Entry points -/

theorem deserializePartial_eq (decoder : Decoder α) (bytes : Bytes) :
    decoder.deserializePartial bytes
      = match decoder.parse bytes with
        | (.ok value, rest) => .ok ⟨value, bytes.length - rest.length⟩
        | (.error failure, _) => .error failure := by
  have run := run_cursor decoder (.ofSource (Cursor.ofBytes bytes)) rfl
  rw [deserializePartial, run]
  simp only [Reader.ofSource, Cursor.rest_ofBytes, Reader.skip, Nat.zero_add]
  generalize decoder.parse bytes = result
  obtain ⟨outcome, rest⟩ := result
  cases outcome <;> rfl

/-- Reading a value from the front of a byte string counts what lies before the
bytes left. -/
theorem deserializePartial_append {decoder : Decoder α} {front suffix : Bytes} {value : α}
    (parsed : decoder.parse (front ++ suffix) = (.ok value, suffix)) :
    decoder.deserializePartial (front ++ suffix) = .ok ⟨value, front.length⟩ := by
  rw [deserializePartial_eq, parsed]
  simp only [List.length_append, Nat.add_sub_cancel]

theorem deserializePartial_of_error {decoder : Decoder α} {bytes : Bytes} {failure : Failure}
    (parsed : (decoder.parse bytes).1 = .error failure) :
    decoder.deserializePartial bytes = .error failure := by
  rw [deserializePartial_eq]
  generalize decoder.parse bytes = result at parsed
  obtain ⟨outcome, rest⟩ := result
  cases parsed
  rfl

theorem deserialize_of_error {decoder : Decoder α} {bytes : Bytes} {failure : Failure}
    (parsed : (decoder.parse bytes).1 = .error failure) :
    decoder.deserialize bytes = .error failure := by
  rw [deserialize, deserializePartial_of_error parsed]

/-- A value read from the front of a byte string leaves what lies behind the bytes
counted, and those are there. -/
theorem parse_of_deserializePartial {decoder : Decoder α} {bytes : Bytes} {value : α}
    {consumed : Nat} (read : decoder.deserializePartial bytes = .ok ⟨value, consumed⟩) :
    consumed ≤ bytes.length ∧ decoder.parse bytes = (.ok value, bytes.drop consumed) := by
  rw [deserializePartial_eq] at read
  have left := parse_suffix decoder bytes
  generalize decoder.parse bytes = result at read left
  obtain ⟨outcome, rest⟩ := result
  cases outcome with
  | error failure => cases read
  | ok found =>
    cases read
    exact ⟨Nat.sub_le _ _, by rw [← List.suffix_iff_eq_drop.mp left]⟩

/-- A value spans a byte string if it is parsed and nothing is left. -/
theorem deserialize_eq_ok_iff {decoder : Decoder α} {bytes : Bytes} {value : α} :
    decoder.deserialize bytes = .ok value ↔ decoder.parse bytes = (.ok value, []) := by
  have left := (parse_suffix decoder bytes).length_le
  rw [deserialize, deserializePartial_eq]
  generalize decoder.parse bytes = result at left
  obtain ⟨outcome, rest⟩ := result
  cases outcome with
  | error failure => simp
  | ok found =>
    dsimp only at left ⊢
    by_cases spans : rest = []
    · subst spans
      simp
    · have positive := List.length_pos_iff.mpr spans
      rw [if_neg (by omega)]
      simp [spans]

/-- Reading a value from the front forgets the reader of a failure. -/
theorem deserializePartial_eq_runOver {decoder : Decoder α} {bytes : Bytes} :
    decoder.deserializePartial bytes
      = match decoder.runOver bytes with
        | (.ok value, reader) => .ok ⟨value, reader.consumed⟩
        | (.error failure, _) => .error failure := rfl

/-- A value spans a byte string if it is read from the front and takes all of it. -/
theorem deserialize_eq_ok_iff_partial {decoder : Decoder α} {bytes : Bytes} {value : α} :
    decoder.deserialize bytes = .ok value
      ↔ decoder.deserializePartial bytes = .ok ⟨value, bytes.length⟩ := by
  rw [deserialize]
  cases decoder.deserializePartial bytes with
  | error failure => simp
  | ok decoded =>
    obtain ⟨found, consumed⟩ := decoded
    dsimp only
    split
    · next spans => simp [spans]
    · next left => simp [left]

end Decoder

end PeerWire
