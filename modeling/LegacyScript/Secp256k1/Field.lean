/-!
# The prime field of secp256k1

Numbers below the prime `p` with addition, subtraction and multiplication modulo
`p`. Every operation takes and gives numbers below `p`. Powers are computed by
squaring, inverses and square roots as powers.
-/

namespace LegacyScript.Secp256k1

/-- The power of `base` to the low `bits` bits of `exponent`, modulo `m`. -/
def powMod (m base exponent : Nat) : (bits : Nat) → Nat
  | 0 => 1 % m
  | bits + 1 =>
    -- b^(2q + i) = (b²)^q · b^i
    let half := powMod m (base * base % m) (exponent / 2) bits
    if exponent % 2 = 1 then base * half % m else half

/-- The inverse of a number modulo a prime below 2^256, by Fermat's little
theorem; zero for zero. -/
def invMod (m a : Nat) : Nat :=
  powMod m a (m - 2) 256

/-- The prime. -/
def p : Nat := 0xfffffffffffffffffffffffffffffffffffffffffffffffffffffffefffffc2f

namespace Fp

/-- The sum of two numbers. -/
def add (a b : Nat) : Nat := (a + b) % p

/-- The difference of two numbers. -/
def sub (a b : Nat) : Nat := (a + (p - b)) % p

/-- The product of two numbers. -/
def mul (a b : Nat) : Nat := a * b % p

/-- The square of a number. -/
def square (a : Nat) : Nat := mul a a

/-- The inverse of a number; zero for zero. -/
def inv (a : Nat) : Nat := invMod p a

/-- A number whose square is `a`, if there is one. The prime is 3 modulo 4, so
the root of a square is a power of it. -/
def sqrt? (a : Nat) : Option Nat :=
  let root := powMod p a ((p + 1) / 4) 256
  if square root = a then some root else none

end Fp

end LegacyScript.Secp256k1
