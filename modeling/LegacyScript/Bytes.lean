/-!
# Byte strings

Scripts, stack elements, signatures and transactions are strings of bytes.
This module fixes their type and the readings that several modules share:

* `toNatLE`, `toNatBE` read a byte string as a number in base 256;
* `ofNatLE`, `ofNatBE` write a number in a given width, `digitsLE` in as few
  bytes as it needs;
* `split?` cuts off a front of a given length, when there is one;
* `chunks` cuts a byte string into pieces of one length.

Main statements: `split?_eq_some_iff` says that a cut loses nothing,
`toNatLE_digitsLE` that reading the digits of a number gives it back.
-/

namespace LegacyScript

/-- A string of bytes. -/
abbrev Bytes := List UInt8

/-- A string of exactly `n` bytes. -/
abbrev FixedBytes (n : Nat) := { bs : Bytes // bs.length = n }

namespace Bytes

/-! ## Numbers -/

/-- The number whose base-256 digits are `bs`, the least significant first. -/
def toNatLE (bs : Bytes) : Nat :=
  bs.foldr (fun b n => b.toNat + 256 * n) 0

/-- The number whose base-256 digits are `bs`, the most significant first. -/
def toNatBE (bs : Bytes) : Nat :=
  bs.foldl (fun n b => 256 * n + b.toNat) 0

/-- The low `width` base-256 digits of `n`, the least significant first. -/
def ofNatLE : (width n : Nat) → Bytes
  | 0, _ => []
  | width + 1, n => UInt8.ofNat n :: ofNatLE width (n / 256)

/-- The low `width` base-256 digits of `n`, the most significant first. -/
def ofNatBE (width n : Nat) : Bytes :=
  (ofNatLE width n).reverse

/-- All base-256 digits of `n`, the least significant first, none of them a
leading zero: zero has no digit at all. -/
def digitsLE (n : Nat) : Bytes :=
  if n = 0 then [] else UInt8.ofNat n :: digitsLE (n / 256)
termination_by n
decreasing_by omega

@[simp] theorem toNatLE_nil : toNatLE [] = 0 := rfl

@[simp] theorem toNatLE_cons (b : UInt8) (bs : Bytes) :
    toNatLE (b :: bs) = b.toNat + 256 * toNatLE bs := rfl

@[simp] theorem length_ofNatLE (width n : Nat) : (ofNatLE width n).length = width := by
  induction width generalizing n with
  | zero => rfl
  | succ width ih => simp [ofNatLE, ih]

@[simp] theorem length_ofNatBE (width n : Nat) : (ofNatBE width n).length = width := by
  simp [ofNatBE]

/-- Reading the digits of a number gives it back. -/
theorem toNatLE_digitsLE (n : Nat) : toNatLE (digitsLE n) = n := by
  induction n using Nat.strongRecOn with
  | ind n ih =>
    unfold digitsLE
    split
    · simp_all
    · next h =>
      rw [toNatLE_cons, ih (n / 256) (by omega), UInt8.toNat_ofNat']
      omega

/-! ## Cutting -/

/-- The first `n` bytes and those after them, when there are that many. -/
def split? (n : Nat) (bs : Bytes) : Option (Bytes × Bytes) :=
  -- `take` gives fewer bytes where there are fewer, so its length tells.
  let front := bs.take n
  if front.length = n then some (front, bs.drop n) else none

/-- A cut loses nothing, and its front has the length asked for. -/
theorem split?_eq_some_iff {n : Nat} {bs front rest : Bytes} :
    split? n bs = some (front, rest) ↔ bs = front ++ rest ∧ front.length = n := by
  constructor
  · intro h
    simp only [split?, Option.ite_none_right_eq_some, Option.some.injEq, Prod.mk.injEq] at h
    obtain ⟨hlen, rfl, rfl⟩ := h
    exact ⟨(List.take_append_drop n bs).symm, hlen⟩
  · rintro ⟨rfl, rfl⟩
    simp [split?]

/-- A cut fails just when there are too few bytes. -/
theorem split?_eq_none_iff {n : Nat} {bs : Bytes} : split? n bs = none ↔ bs.length < n := by
  simp only [split?, List.length_take, ite_eq_right_iff, reduceCtorEq, imp_false]
  omega

/-- The pieces of `size` bytes that a byte string is made of; the last may be
shorter. -/
def chunks (size : Nat) : Bytes → List Bytes
  | [] => []
  -- The first byte always belongs to the piece, so that each piece uses up something.
  | b :: bs => (b :: bs.take (size - 1)) :: chunks size (bs.drop (size - 1))
termination_by bs => bs.length
decreasing_by simp only [List.length_drop, List.length_cons]; omega

end Bytes

end LegacyScript
