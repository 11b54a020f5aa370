import LegacyScript.Secp256k1.Field

/-!
# The curve secp256k1

The points of the curve y² = x³ + 7 over the prime field form a group of prime
order `order` with the generator `generator`. A point is kept in Jacobian
coordinates: `(x, y, z)` stands for the point (x / z², y / z³), and `z = 0` for
the neutral element. So a sum needs no inverse in the field.

`combine` computes u·G + v·Q, all that the verification of a signature needs of
the group.
-/

namespace LegacyScript.Secp256k1

/-- A point given by its coordinates. -/
structure Affine where
  x : Nat
  y : Nat
  deriving DecidableEq, Repr

/-- The right side of the equation of the curve. -/
def cubic (x : Nat) : Nat :=
  Fp.add (Fp.mul (Fp.square x) x) 7

/-- Whether a point is on the curve. -/
def Affine.isOnCurve (point : Affine) : Bool :=
  Fp.square point.y == cubic point.x

/-- The number of points. -/
def order : Nat := 0xfffffffffffffffffffffffffffffffebaaedce6af48a03bbfd25e8cd0364141

/-- The generator of the group. -/
def generator : Affine :=
  ⟨0x79be667ef9dcbbac55a06295ce870b07029bfcdb2dce28d959f2815b16f81798,
   0x483ada7726a3c4655da4fbfc0e1108a8fd17b448a68554199c47d08ffb10d4b8⟩

/-- A point in Jacobian coordinates. -/
structure Jacobian where
  x : Nat
  y : Nat
  z : Nat

namespace Jacobian

open Fp

/-- The neutral element. -/
def neutral : Jacobian := ⟨1, 1, 0⟩

/-- A point given by its coordinates. -/
def ofAffine (point : Affine) : Jacobian := ⟨point.x, point.y, 1⟩

/-- The coordinates of a point; the neutral element has none. -/
def toAffine? (point : Jacobian) : Option Affine :=
  if point.z = 0 then none
  else
    let i := inv point.z
    let i2 := square i
    some ⟨mul point.x i2, mul point.y (mul i2 i)⟩

/-- The sum of a point with itself. -/
def double (point : Jacobian) : Jacobian :=
  -- The tangent has the slope 3x² / 2y, as the curve has no term in x.
  let yy := square point.y
  let s := mul 4 (mul point.x yy)
  let m := mul 3 (square point.x)
  let x := sub (square m) (mul 2 s)
  ⟨x, sub (mul m (sub s x)) (mul 8 (square yy)), mul 2 (mul point.y point.z)⟩

/-- The sum of two points. -/
def add (a b : Jacobian) : Jacobian :=
  if a.z = 0 then b
  else if b.z = 0 then a
  else
    -- Bring both points to the common denominator: u and s belong to `a`, h and r are
    -- the differences of the two x and the two y.
    let azz := square a.z
    let bzz := square b.z
    let u := mul a.x bzz
    let h := sub (mul b.x azz) u
    let s := mul a.y (mul bzz b.z)
    let r := sub (mul b.y (mul azz a.z)) s
    if h = 0 then
      -- The points have the same x: they are equal, or opposite to each other.
      if r = 0 then double a else neutral
    else
      let hh := square h
      let hhh := mul hh h
      let v := mul u hh
      let x := sub (sub (square r) hhh) (mul 2 v)
      ⟨x, sub (mul r (sub v x)) (mul s hhh), mul h (mul a.z b.z)⟩

/-- Doubles a point and adds `a`, `b` or both, once for each of the low `bits`
bits of `u` and `v`, beginning with the highest. -/
def accumulate (u v : Nat) (a b sum : Jacobian) : (bits : Nat) → Jacobian → Jacobian
  | 0, point => point
  | bits + 1, point =>
    let doubled := double point
    let next :=
      match u.testBit bits, v.testBit bits with
      | true, true => add doubled sum
      | true, false => add doubled a
      | false, true => add doubled b
      | false, false => doubled
    accumulate u v a b sum bits next

end Jacobian

/-- The point u·G + v·Q for the generator G and numbers below 2^256; `none` for
the neutral element. -/
def combine (u v : Nat) (q : Affine) : Option Affine :=
  let a := Jacobian.ofAffine generator
  let b := Jacobian.ofAffine q
  (Jacobian.accumulate u v a b (Jacobian.add a b) 256 Jacobian.neutral).toAffine?

end LegacyScript.Secp256k1
