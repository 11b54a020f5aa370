import LegacyScript.Secp256k1.Ecdsa

/-!
# Lax encodings

Signatures have been accepted in many forms that break the rules of DER.
`Der.signature?` reads all of them: the length of the whole is skipped, lengths
may be written longer than needed, integers may have leading zeros or a high bit,
and bytes behind the second integer do not matter. An integer that is not below
the order of the group makes the signature void, with both numbers zero.
-/

namespace LegacyScript.Der

/-- Takes something off the front of a byte string, if it is there. -/
abbrev Reader := StateT Bytes Option

/-- Takes one byte. -/
def byte : Reader UInt8
  | [] => none
  | b :: bs => some (b, bs)

/-- Takes `n` bytes. -/
def bytes (n : Nat) : Reader Bytes :=
  Bytes.split? n

/-- Takes one byte that must be `b`. -/
def tag (b : UInt8) : Reader Unit := do
  let c ← byte
  if c = b then pure () else failure

/-- The number of bytes that hold a length, if it is not held by the first byte
itself. -/
def longForm? (first : UInt8) : Option Nat :=
  if first &&& 0x80 ≠ 0 then some (first &&& 0x7f).toNat else none

/-- Takes a length and forgets it. -/
def skipLength : Reader Unit := do
  let first ← byte
  match longForm? first with
  | none => pure ()
  | some width =>
    let _ ← bytes width
    pure ()

/-- Takes a length. Leading zeros do not count; without them, it has at most
seven bytes. -/
def length : Reader Nat := do
  let first ← byte
  match longForm? first with
  | none => pure first.toNat
  | some width =>
    let digits ← bytes width
    -- Only what is left without leading zeros must be short.
    let digits := digits.dropWhile (· == 0)
    if 8 ≤ digits.length then failure else pure (Bytes.toNatBE digits)

/-- Takes an integer; a sign is not looked for. -/
def integer : Reader Nat := do
  tag 0x02
  let size ← length
  let digits ← bytes size
  pure (Bytes.toNatBE digits)

/-- Takes two integers behind the header of a sequence. -/
def sequence : Reader (Nat × Nat) := do
  tag 0x30
  skipLength
  let r ← integer
  let s ← integer
  pure (r, s)

/-- The signature that bytes stand for. -/
def signature? (bs : Bytes) : Option Secp256k1.Signature :=
  match sequence bs with
  | none => none
  | some ((r, s), _) =>
    -- The form is good; a number out of range only keeps it from verifying.
    if r < Secp256k1.order ∧ s < Secp256k1.order then some ⟨r, s⟩ else some ⟨0, 0⟩

end LegacyScript.Der
