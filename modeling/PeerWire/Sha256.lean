import PeerWire.Bytes

/-!
# SHA-256

The digest of a byte string, and the double digest by which messages are checked.
A message is padded to whole blocks of sixty-four bytes; each block is expanded to
a schedule of sixty-four words, and every word drives one round of the state. A
digest always has thirty-two bytes (`length_digest`).
-/

set_option autoImplicit false

namespace PeerWire

namespace Sha256

/-- The eight words that a block transforms. -/
structure State where
  a : UInt32
  b : UInt32
  c : UInt32
  d : UInt32
  e : UInt32
  f : UInt32
  g : UInt32
  h : UInt32

/-- The state before the first block. -/
def State.start : State :=
  ⟨0x6a09e667, 0xbb67ae85, 0x3c6ef372, 0xa54ff53a, 0x510e527f, 0x9b05688c, 0x1f83d9ab, 0x5be0cd19⟩

/-- The sixty-four round constants. -/
def roundConstants : List UInt32 :=
  [0x428a2f98, 0x71374491, 0xb5c0fbcf, 0xe9b5dba5, 0x3956c25b, 0x59f111f1, 0x923f82a4, 0xab1c5ed5,
    0xd807aa98, 0x12835b01, 0x243185be, 0x550c7dc3, 0x72be5d74, 0x80deb1fe, 0x9bdc06a7, 0xc19bf174,
    0xe49b69c1, 0xefbe4786, 0x0fc19dc6, 0x240ca1cc, 0x2de92c6f, 0x4a7484aa, 0x5cb0a9dc, 0x76f988da,
    0x983e5152, 0xa831c66d, 0xb00327c8, 0xbf597fc7, 0xc6e00bf3, 0xd5a79147, 0x06ca6351, 0x14292967,
    0x27b70a85, 0x2e1b2138, 0x4d2c6dfc, 0x53380d13, 0x650a7354, 0x766a0abb, 0x81c2c92e, 0x92722c85,
    0xa2bfe8a1, 0xa81a664b, 0xc24b8b70, 0xc76c51a3, 0xd192e819, 0xd6990624, 0xf40e3585, 0x106aa070,
    0x19a4c116, 0x1e376c08, 0x2748774c, 0x34b0bcb5, 0x391c0cb3, 0x4ed8aa4a, 0x5b9cca4f, 0x682e6ff3,
    0x748f82ee, 0x78a5636f, 0x84c87814, 0x8cc70208, 0x90befffa, 0xa4506ceb, 0xbef9a3f7, 0xc67178f2]

/-- Rotates a word to the right. -/
def rotate (word : UInt32) (amount : UInt32) : UInt32 :=
  (word >>> amount) ||| (word <<< (32 - amount))

/-- Mixes the schedule word fifteen places back. -/
def scheduleLow (word : UInt32) : UInt32 :=
  rotate word 7 ^^^ rotate word 18 ^^^ (word >>> 3)

/-- Mixes the schedule word two places back. -/
def scheduleHigh (word : UInt32) : UInt32 :=
  rotate word 17 ^^^ rotate word 19 ^^^ (word >>> 10)

/-- The word of four bytes in big-endian order. -/
def word (b₀ b₁ b₂ b₃ : UInt8) : UInt32 :=
  (b₀.toUInt32 <<< 24) ||| (b₁.toUInt32 <<< 16) ||| (b₂.toUInt32 <<< 8) ||| b₃.toUInt32

/-- The words of a block; a block has a multiple of four bytes. -/
def words : Bytes → List UInt32
  | b₀ :: b₁ :: b₂ :: b₃ :: rest => word b₀ b₁ b₂ b₃ :: words rest
  | _ => []

/-- Appends the next schedule word, from those two, seven, fifteen and sixteen
places back. -/
def extend (schedule : Array UInt32) : Array UInt32 :=
  let back (places : Nat) := schedule.getD (schedule.size - places) 0
  schedule.push (scheduleHigh (back 2) + back 7 + scheduleLow (back 15) + back 16)

/-- The sixty-four words of a block's schedule. -/
def schedule (block : Bytes) : List UInt32 :=
  ((List.range 48).foldl (fun schedule _ => extend schedule) (words block).toArray).toList

/-- One round, under a constant and a schedule word. -/
def round (state : State) (constant input : UInt32) : State :=
  let s₁ := rotate state.e 6 ^^^ rotate state.e 11 ^^^ rotate state.e 25
  let choice := (state.e &&& state.f) ^^^ (~~~state.e &&& state.g)
  let t₁ := state.h + s₁ + choice + constant + input
  let s₀ := rotate state.a 2 ^^^ rotate state.a 13 ^^^ rotate state.a 22
  let majority := (state.a &&& state.b) ^^^ (state.a &&& state.c) ^^^ (state.b &&& state.c)
  ⟨t₁ + (s₀ + majority), state.a, state.b, state.c, state.d + t₁, state.e, state.f, state.g⟩

/-- All rounds, one for each constant and schedule word. -/
def rounds : State → List UInt32 → List UInt32 → State
  | state, constant :: constants, input :: inputs =>
    rounds (round state constant input) constants inputs
  | state, _, _ => state

/-- The state after a block. -/
def compress (state : State) (block : Bytes) : State :=
  let mixed := rounds state roundConstants (schedule block)
  ⟨state.a + mixed.a, state.b + mixed.b, state.c + mixed.c, state.d + mixed.d,
    state.e + mixed.e, state.f + mixed.f, state.g + mixed.g, state.h + mixed.h⟩

/-- The state after all blocks of a padded message. -/
def absorb : State → Bytes → State
  | state, [] => state
  | state, byte :: rest =>
    absorb (compress state ((byte :: rest).take 64)) ((byte :: rest).drop 64)
termination_by _ padded => padded.length
decreasing_by
  rw [List.length_drop, List.length_cons]
  omega

/-- A message filled up to whole blocks: a one bit, zeros, and the length in bits. -/
def pad (message : Bytes) : Bytes :=
  let size := message.length
  message ++ 0x80 :: List.replicate ((119 - size % 64) % 64) 0
    ++ ByteOrder.big.write 8 (8 * size : Nat)

/-- The words of a state, first to last. -/
def State.toList (state : State) : List UInt32 :=
  [state.a, state.b, state.c, state.d, state.e, state.f, state.g, state.h]

/-- The thirty-two bytes of a state. -/
def State.toBytes (state : State) : Bytes :=
  state.toList.flatMap fun word => ByteOrder.big.write 4 (word.toNat : Int)

/-- The SHA-256 digest of a message. -/
def digest (message : Bytes) : Bytes :=
  (absorb .start (pad message)).toBytes

@[simp] theorem length_digest (message : Bytes) : (digest message).length = 32 := by
  simp only [digest, State.toBytes, State.toList, List.flatMap_cons, List.flatMap_nil,
    List.length_append, ByteOrder.length_write, List.length_nil]

end Sha256

/-- The double SHA-256 digest of a byte string. -/
def hash256 (bytes : Bytes) : Bytes :=
  Sha256.digest (Sha256.digest bytes)

@[simp] theorem length_hash256 (bytes : Bytes) : (hash256 bytes).length = 32 :=
  Sha256.length_digest _

/-- The four bytes by which a payload is checked: the front of its double digest. -/
def checksum (bytes : Bytes) : Bytes :=
  (hash256 bytes).take 4

@[simp] theorem length_checksum (bytes : Bytes) : (checksum bytes).length = 4 := by
  simp only [checksum, List.length_take, length_hash256, Nat.reduceLeDiff, Nat.min_eq_left]

end PeerWire
