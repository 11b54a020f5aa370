import LegacyScript.Hash.Block

/-!
# SHA-1

The digest has 20 bytes. Each block is stretched to eighty words, and each word
drives one round.
-/

namespace LegacyScript.Hash.Sha1

/-- Appends `count` words, each made of four earlier ones. -/
def extend (words : Array UInt32) : (count : Nat) → Array UInt32
  | 0 => words
  | count + 1 =>
    let back (n : Nat) : UInt32 := words.getD (words.size - n) 0
    extend (words.push (rotateLeft (back 3 ^^^ back 8 ^^^ back 14 ^^^ back 16) 1)) count

/-- The function and the constant of a round. -/
def mix (round : Nat) (b c d : UInt32) : UInt32 :=
  if round < 20 then ((b &&& c) ||| (~~~b &&& d)) + 0x5a827999
  else if round < 40 then (b ^^^ c ^^^ d) + 0x6ed9eba1
  else if round < 60 then ((b &&& c) ||| (b &&& d) ||| (c &&& d)) + 0x8f1bbcdc
  else (b ^^^ c ^^^ d) + 0xca62c1d6

/-- One round. -/
def step (s : FiveWords) (round : Nat) (word : UInt32) : FiveWords :=
  ⟨rotateLeft s.a 5 + mix round s.b s.c s.d + s.e + word, s.a, rotateLeft s.b 30, s.c, s.d⟩

/-- Updates the state with one block. -/
def update (s : FiveWords) (block : Array UInt32) : FiveWords :=
  let t := (extend block 64).toList.zipIdx.foldl (fun t (word, round) => step t round word) s
  ⟨s.a + t.a, s.b + t.b, s.c + t.c, s.d + t.d, s.e + t.e⟩

/-- The digest of a message. -/
def digest (message : Bytes) : Bytes :=
  (absorb .bigEndian update FiveWords.initial message).bytes .bigEndian

@[simp] theorem length_digest (message : Bytes) : (digest message).length = 20 := by
  simp [digest]

end LegacyScript.Hash.Sha1
