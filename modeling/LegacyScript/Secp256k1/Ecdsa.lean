import LegacyScript.Bytes
import LegacyScript.Secp256k1.Curve

/-!
# Signatures over secp256k1

A public key is a point of the curve, and a signature is a pair of numbers.
`PublicKey.ofBytes?` reads the encodings of points, and `Signature.verifies`
checks a signature of a digest.
-/

namespace LegacyScript.Secp256k1

/-! ## Public keys -/

namespace PublicKey

/-- The point with the given x whose y is odd or even as asked for. -/
def ofX? (x : Nat) (odd : Bool) : Option Affine := do
  let root ← Fp.sqrt? (cubic x)
  pure ⟨x, if (root % 2 == 1) == odd then root else Fp.sub 0 root⟩

/-- The point with the given coordinates, if it is on the curve. -/
def ofXY? (x y : Nat) : Option Affine :=
  if p ≤ y then none
  else
    let point : Affine := ⟨x, y⟩
    if point.isOnCurve then some point else none

/-- The point that is encoded as a tag and coordinates of 32 bytes each: by x
and the parity of y, by both, or by both with the parity repeated in the tag. -/
def ofBytes? : Bytes → Option Affine
  | [] => none
  | tag :: coordinates => do
    let (xs, ys) ← Bytes.split? 32 coordinates
    let x := Bytes.toNatBE xs
    if p ≤ x then none
    else if ys.isEmpty then
      if tag = 0x02 then ofX? x false
      else if tag = 0x03 then ofX? x true
      else none
    else if ys.length ≠ 32 then none
    else
      let y := Bytes.toNatBE ys
      -- The tags 0x06 and 0x07 repeat the parity of y, and must be right.
      if tag = 0x04 then ofXY? x y
      else if tag = 0x06 ∧ y % 2 = 0 then ofXY? x y
      else if tag = 0x07 ∧ y % 2 = 1 then ofXY? x y
      else none

end PublicKey

/-! ## Signatures -/

/-- A signature is a pair of numbers below the order of the group. -/
structure Signature where
  r : Nat
  s : Nat
  deriving DecidableEq, Repr

namespace Signature

/-- The lower of the two values of s that make the same signature. -/
def lowS (signature : Signature) : Signature :=
  if order / 2 < signature.s then { signature with s := order - signature.s } else signature

/-- Whether a signature of a digest is valid for a public key. -/
def verifies (signature : Signature) (key : Affine) (digest : Bytes) : Bool :=
  let { r, s } := signature
  if r = 0 ∨ s = 0 then false
  else
    -- The digest z and the pair satisfy x((z/s)·G + (r/s)·Q) = r modulo the order.
    let inverse := invMod order s
    let u := Bytes.toNatBE digest % order * inverse % order
    let v := r * inverse % order
    match combine u v key with
    | none => false
    | some point => point.x % order == r

end Signature

end LegacyScript.Secp256k1
