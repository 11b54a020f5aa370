import LegacyScript.Hash.Block

/-!
# RIPEMD-160

The digest has 20 bytes. Each block runs through two lines of five rounds of
sixteen steps, which differ in their functions, constants, in the order in which
they take the words of the block, and in the rotations. The two results are added
to the state, each word in another place.
-/

namespace LegacyScript.Hash.Ripemd160

/-! ## Rounds -/

/-- The five functions of three words. -/
def parity (x y z : UInt32) : UInt32 := x ^^^ y ^^^ z

@[inherit_doc parity]
def choose (x y z : UInt32) : UInt32 := (x &&& y) ||| (~~~x &&& z)

@[inherit_doc parity]
def spread (x y z : UInt32) : UInt32 := (x ||| ~~~y) ^^^ z

@[inherit_doc parity]
def chooseBack (x y z : UInt32) : UInt32 := (x &&& z) ||| (y &&& ~~~z)

@[inherit_doc parity]
def spreadBack (x y z : UInt32) : UInt32 := x ^^^ (y ||| ~~~z)

/-- What sixteen steps have in common, and for each the index of the word that it
takes and the places that it rotates by. -/
structure Round where
  mix : UInt32 → UInt32 → UInt32 → UInt32
  constant : UInt32
  indices : List Nat
  rotations : List UInt32

/-- The rounds of the first line. -/
def left : List Round := [
  ⟨parity, 0x00000000,
    [0, 1, 2, 3, 4, 5, 6, 7, 8, 9, 10, 11, 12, 13, 14, 15],
    [11, 14, 15, 12, 5, 8, 7, 9, 11, 13, 14, 15, 6, 7, 9, 8]⟩,
  ⟨choose, 0x5a827999,
    [7, 4, 13, 1, 10, 6, 15, 3, 12, 0, 9, 5, 2, 14, 11, 8],
    [7, 6, 8, 13, 11, 9, 7, 15, 7, 12, 15, 9, 11, 7, 13, 12]⟩,
  ⟨spread, 0x6ed9eba1,
    [3, 10, 14, 4, 9, 15, 8, 1, 2, 7, 0, 6, 13, 11, 5, 12],
    [11, 13, 6, 7, 14, 9, 13, 15, 14, 8, 13, 6, 5, 12, 7, 5]⟩,
  ⟨chooseBack, 0x8f1bbcdc,
    [1, 9, 11, 10, 0, 8, 12, 4, 13, 3, 7, 15, 14, 5, 6, 2],
    [11, 12, 14, 15, 14, 15, 9, 8, 9, 14, 5, 6, 8, 6, 5, 12]⟩,
  ⟨spreadBack, 0xa953fd4e,
    [4, 0, 5, 9, 7, 12, 2, 10, 14, 1, 3, 8, 11, 6, 15, 13],
    [9, 15, 5, 11, 6, 8, 13, 12, 5, 12, 13, 14, 11, 8, 5, 6]⟩]

/-- The rounds of the second line. -/
def right : List Round := [
  ⟨spreadBack, 0x50a28be6,
    [5, 14, 7, 0, 9, 2, 11, 4, 13, 6, 15, 8, 1, 10, 3, 12],
    [8, 9, 9, 11, 13, 15, 15, 5, 7, 7, 8, 11, 14, 14, 12, 6]⟩,
  ⟨chooseBack, 0x5c4dd124,
    [6, 11, 3, 7, 0, 13, 5, 10, 14, 15, 8, 12, 4, 9, 1, 2],
    [9, 13, 15, 7, 12, 8, 9, 11, 7, 7, 12, 7, 6, 15, 13, 11]⟩,
  ⟨spread, 0x6d703ef3,
    [15, 5, 1, 3, 7, 14, 6, 9, 11, 8, 12, 2, 10, 0, 4, 13],
    [9, 7, 15, 11, 8, 6, 6, 14, 12, 13, 5, 14, 13, 13, 7, 5]⟩,
  ⟨choose, 0x7a6d76e9,
    [8, 6, 4, 1, 3, 11, 15, 0, 5, 12, 2, 13, 9, 7, 10, 14],
    [15, 5, 8, 11, 14, 14, 6, 14, 6, 9, 12, 9, 12, 5, 15, 8]⟩,
  ⟨parity, 0x00000000,
    [12, 15, 10, 4, 1, 5, 8, 7, 6, 2, 13, 14, 0, 3, 9, 11],
    [8, 5, 12, 9, 12, 5, 14, 6, 8, 13, 6, 5, 15, 13, 11, 11]⟩]

/-! ## The digest -/

/-- One step. -/
def step (mix : UInt32 → UInt32 → UInt32 → UInt32) (constant : UInt32) (block : Array UInt32)
    (s : FiveWords) (index : Nat) (rotation : UInt32) : FiveWords :=
  let t := rotateLeft (s.a + mix s.b s.c s.d + block.getD index 0 + constant) rotation + s.e
  ⟨s.e, t, s.b, rotateLeft s.c 10, s.d⟩

/-- One line. -/
def runLine (rounds : List Round) (block : Array UInt32) (s : FiveWords) : FiveWords :=
  rounds.foldl (fun s round =>
    (round.indices.zip round.rotations).foldl
      (fun s (index, rotation) => step round.mix round.constant block s index rotation) s) s

/-- Updates the state with one block. -/
def update (s : FiveWords) (block : Array UInt32) : FiveWords :=
  let l := runLine left block s
  let r := runLine right block s
  ⟨s.b + l.c + r.d, s.c + l.d + r.e, s.d + l.e + r.a, s.e + l.a + r.b, s.a + l.b + r.c⟩

/-- The digest of a message. -/
def digest (message : Bytes) : Bytes :=
  (absorb .littleEndian update FiveWords.initial message).bytes .littleEndian

@[simp] theorem length_digest (message : Bytes) : (digest message).length = 20 := by
  simp [digest]

end LegacyScript.Hash.Ripemd160
