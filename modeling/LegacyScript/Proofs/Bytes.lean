import LegacyScript.Bytes
import Mathlib.Algebra.Group.Nat.Defs

/-!
# Numbers of a width

A byte string is a number below a power of 256, and a number that is written in
some width is read back modulo that power. In its own width a byte string is the
only one for its number.
-/

namespace LegacyScript.Bytes

theorem toNatLE_lt (bs : Bytes) : toNatLE bs < 256 ^ bs.length := by
  induction bs with
  | nil => simp
  | cons b bs ih =>
    have hByte := b.toNat_lt
    rw [toNatLE_cons, List.length_cons, Nat.pow_succ]
    omega

/-- To write a number that fits its width and to read it gives it back. -/
theorem toNatLE_ofNatLE (width n : Nat) : toNatLE (ofNatLE width n) = n % 256 ^ width := by
  induction width generalizing n with
  | zero => simp [ofNatLE, Nat.mod_one]
  | succ width ih =>
    have hByte : (UInt8.ofNat n).toNat = n % 256 := UInt8.toNat_ofNat'
    rw [ofNatLE, toNatLE_cons, ih, hByte, Nat.pow_succ, Nat.mul_comm (256 ^ width) 256,
      Nat.mod_mul]

/-- A byte string is what is written for its number in its own width. -/
theorem ofNatLE_toNatLE (bs : Bytes) : ofNatLE bs.length (toNatLE bs) = bs := by
  induction bs with
  | nil => rfl
  | cons b bs ih =>
    have hByte := b.toNat_lt
    have hRest : (b.toNat + 256 * toNatLE bs) / 256 = toNatLE bs := by omega
    rw [List.length_cons, toNatLE_cons, ofNatLE, hRest, ih]
    congr 1
    rw [← UInt8.toNat_inj, UInt8.toNat_ofNat']
    omega

/-- A width has one byte string for each number. -/
theorem eq_of_toNatLE_eq {bs cs : Bytes} (hLength : bs.length = cs.length)
    (h : toNatLE bs = toNatLE cs) : bs = cs := by
  rw [← ofNatLE_toNatLE bs, ← ofNatLE_toNatLE cs, hLength, h]

end LegacyScript.Bytes
