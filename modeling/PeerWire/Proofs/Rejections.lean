import PeerWire.Handshake
import PeerWire.Proofs.RecordLaws

/-!
# Rejections read and written again

A rejection names the command of the message that is turned down. Writing checks the
name and reading does not, so that the two halves of the codec disagree on which texts
may stand there. Reading is that of a codec without the check, and that codec is
canonical. What comes of writing a rejection that was read therefore depends on the name
alone: the bytes it was read from, or the fault of the name
(`Reject.serialize_deserialized`). A name too long for the field of a command is read
and cannot be written (`Reject.serialize_overlong`).
-/

set_option autoImplicit false

namespace PeerWire

namespace Reject

variable {rejection : Reject}

/-- A rejection that may name anything: its fields in order, the first any text. -/
def looseCodec : Codec Reject :=
  (Codec.varString.pair (RejectReason.codec.pair
    (Codec.varString.pair (Codec.fixedBytes 32)))).map
    (fun r => (r.message, r.code, r.reason, r.hash))
    fun (message, code, reason, hash) => ⟨message, code, reason, hash⟩

theorem canonical_looseCodec : looseCodec.Canonical :=
  (Codec.canonical_varString.pair (RejectReason.canonical_codec.pair
    (Codec.canonical_varString.pair (Codec.canonical_fixedBytes 32)))).map fun _ => rfl

/-- Reading does not check the name. -/
theorem decode_codec : codec.decode = looseCodec.decode := rfl

/-- Writing checks the name before anything else. -/
theorem encode_codec (rejection : Reject) :
    codec.encode rejection
      = (Emission.ofExcept (Command.checkName rejection.message) fun _ =>
          Codec.varString.encode rejection.message).andThen
        ((RejectReason.codec.encode rejection.code).andThen
          ((Codec.varString.encode rejection.reason).andThen
            ((Codec.fixedBytes 32).encode rejection.hash))) := rfl

theorem serialize_of_checkName_ok {name : Bytes}
    (named : Command.checkName rejection.message = .ok name) :
    codec.serialize rejection = looseCodec.serialize rejection := by
  rw [Codec.serialize, encode_codec, named]
  rfl

theorem serialize_of_checkName_error {fault : Fault}
    (unnamed : Command.checkName rejection.message = .error fault) :
    codec.serialize rejection = .error fault := by
  rw [Codec.serialize, encode_codec, unnamed]
  rfl

/-- A rejection that was read is written as it was read if its message is a command
name, at most twelve ASCII bytes without NUL; otherwise writing ends in the fault that
the name has. -/
theorem serialize_deserialized {bytes : Bytes} {rejection : Reject}
    (read : codec.decode.deserialize bytes = .ok rejection) :
    codec.serialize rejection
        = (Command.checkName rejection.message).map (fun _ => bytes)
      ∧ ((∃ name, Command.checkName rejection.message = .ok name)
        ↔ rejection.message.toUtf8.isAscii = true ∧ 0 ∉ rejection.message.toUtf8
          ∧ rejection.message.toUtf8.length ≤ Command.fieldSize) := by
  rw [decode_codec] at read
  constructor
  · cases checked : Command.checkName rejection.message with
    | ok name =>
      rw [serialize_of_checkName_ok checked]
      exact canonical_looseCodec.serialize_eq read
    | error fault =>
      rw [serialize_of_checkName_error checked]
      rfl
  · simp only [Command.checkName_eq_ok, exists_eq_left]

/-- A rejection of a transaction as dust. -/
def dusty : Reject :=
  ⟨"tx", .dust, "dust", List.replicate 32 0xab⟩

def dustyBytes : Bytes :=
  [2, 0x74, 0x78, 0x41, 4, 0x64, 0x75, 0x73, 0x74] ++ List.replicate 32 0xab

/-- A rejection of a command that is four bytes longer than its field. -/
def overlong : Reject :=
  ⟨"averylongcommand", .dust, "dust", List.replicate 32 0xab⟩

def overlongBytes : Bytes :=
  [16, 0x61, 0x76, 0x65, 0x72, 0x79, 0x6c, 0x6f, 0x6e, 0x67, 0x63, 0x6f, 0x6d, 0x6d, 0x61, 0x6e,
    0x64, 0x41, 4, 0x64, 0x75, 0x73, 0x74] ++ List.replicate 32 0xab

theorem deserialize_overlongBytes : codec.decode.deserialize overlongBytes = .ok overlong :=
  Decoder.deserialize_eq_ok_iff.mpr rfl

/-- The rejection of a transaction is written as it was read. The other one is not. -/
theorem serialize_deserialized_dusty :
    codec.serialize dusty = .ok dustyBytes
      ∧ codec.serialize overlong
        = (Command.checkName "averylongcommand").map fun _ => overlongBytes := by
  have read : codec.decode.deserialize dustyBytes = .ok dusty :=
    Decoder.deserialize_eq_ok_iff.mpr rfl
  exact ⟨(serialize_deserialized read).1, (serialize_deserialized deserialize_overlongBytes).1⟩

/-- Not every rejection that is read can be written. -/
theorem serialize_overlong :
    codec.decode.deserialize overlongBytes = .ok overlong
      ∧ codec.serialize overlong = .error (.commandTooLong "averylongcommand" 16 12) :=
  ⟨deserialize_overlongBytes, serialize_of_checkName_error rfl⟩

end Reject

end PeerWire
