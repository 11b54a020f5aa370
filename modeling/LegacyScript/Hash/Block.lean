import LegacyScript.Bytes

/-!
# Hashing by blocks

The hash functions of this folder share one frame. The message is padded to
whole blocks of 64 bytes: a byte 0x80, zeros, and the length of the message in
bits as eight bytes. Then a state of a few words is updated with one block after
the other, and the words of the last state are the digest.

They differ in the state, in the update, and in the order of bytes in a word.
-/

namespace LegacyScript.Hash

/-- The order of bytes in a word. -/
inductive ByteOrder
  | littleEndian | bigEndian

namespace ByteOrder

/-- The number that bytes stand for. -/
def read : ByteOrder → Bytes → Nat
  | .littleEndian => Bytes.toNatLE
  | .bigEndian => Bytes.toNatBE

/-- A number as `width` bytes. -/
def write : ByteOrder → (width n : Nat) → Bytes
  | .littleEndian => Bytes.ofNatLE
  | .bigEndian => Bytes.ofNatBE

@[simp] theorem length_write (order : ByteOrder) (width n : Nat) :
    (order.write width n).length = width := by
  cases order <;> simp [write]

end ByteOrder

/-- The number of zeros that fill the last block of a message of `size` bytes. -/
def zeros (size : Nat) : Nat :=
  -- One byte more and the eight bytes of the length make a multiple of 64.
  (119 - size % 64) % 64

/-- A message filled up to whole blocks. -/
def pad (order : ByteOrder) (message : Bytes) : Bytes :=
  message ++ 0x80 :: List.replicate (zeros message.length) 0
    ++ order.write 8 (8 * message.length)

/-- A padded message consists of whole blocks. -/
theorem length_pad_mod (order : ByteOrder) (message : Bytes) :
    (pad order message).length % 64 = 0 := by
  simp only [pad, zeros, List.length_append, List.length_cons, List.length_replicate,
    ByteOrder.length_write]
  omega

/-- The words of a block. -/
def blockWords (order : ByteOrder) (block : Bytes) : Array UInt32 :=
  ((Bytes.chunks 4 block).map fun word => UInt32.ofNat (order.read word)).toArray

/-- Updates a state with each block of a message. -/
def absorb {State : Type} (order : ByteOrder) (update : State → Array UInt32 → State)
    (initial : State) (message : Bytes) : State :=
  (Bytes.chunks 64 (pad order message)).foldl
    (fun state block => update state (blockWords order block)) initial

/-- The bits of a word moved to the left by `n` places, and around. -/
def rotateLeft (x n : UInt32) : UInt32 :=
  x <<< n ||| x >>> (32 - n)

/-- The bits of a word moved to the right by `n` places, and around. -/
def rotateRight (x n : UInt32) : UInt32 :=
  x >>> n ||| x <<< (32 - n)

/-! ## States of five words -/

/-- Five words, the state of the hash functions with digests of 20 bytes. -/
structure FiveWords where
  a : UInt32
  b : UInt32
  c : UInt32
  d : UInt32
  e : UInt32

namespace FiveWords

/-- The state that hashing begins with. -/
def initial : FiveWords :=
  ⟨0x67452301, 0xefcdab89, 0x98badcfe, 0x10325476, 0xc3d2e1f0⟩

/-- The words as bytes. -/
def bytes (order : ByteOrder) (s : FiveWords) : Bytes :=
  [s.a, s.b, s.c, s.d, s.e].flatMap fun word => order.write 4 word.toNat

@[simp] theorem length_bytes (order : ByteOrder) (s : FiveWords) :
    (s.bytes order).length = 20 := by
  simp [bytes]

end FiveWords

end LegacyScript.Hash
