import LegacyScript.Number
import LegacyScript.Proofs.Bytes
import Mathlib.Tactic.Common

/-!
# Lengths of numbers

A number of `k + 1` bytes has `8 * k + 7` bits for its magnitude, and one for its
sign. So an operand of at most four bytes is below `2 ^ 31` in magnitude, and what
arithmetic makes of such operands is below `2 ^ 32`, which five bytes hold.

## Results

* `length_encode_le_iff` — the numbers that are written in at most `k + 1` bytes.
* `natAbs_lt_of_parse`   — the numbers that are read from at most `k + 1` bytes.
-/

namespace LegacyScript

theorem Bytes.digitsLE_zero : Bytes.digitsLE 0 = [] := by
  rw [Bytes.digitsLE, if_pos rfl]

theorem Bytes.digitsLE_of_ne {n : Nat} (h : n ≠ 0) :
    Bytes.digitsLE n = UInt8.ofNat n :: Bytes.digitsLE (n / 256) := by
  rw [Bytes.digitsLE, if_neg h]

theorem Bytes.toNatLE_append (front bs : Bytes) :
    Bytes.toNatLE (front ++ bs) =
      Bytes.toNatLE front + 256 ^ front.length * Bytes.toNatLE bs := by
  induction front with
  | nil => simp
  | cons b front ih =>
    rw [List.cons_append, toNatLE_cons, toNatLE_cons, ih, List.length_cons, Nat.pow_succ]
    have hAssoc : 256 * (256 ^ front.length * toNatLE bs) =
        256 ^ front.length * 256 * toNatLE bs := by
      rw [Nat.mul_comm (256 ^ front.length) 256, Nat.mul_assoc]
    omega

namespace Number

/-- The high bit of a byte is set from 128 on. -/
theorem and_highBit_eq_zero_iff (b : UInt8) : b &&& 0x80 = 0 ↔ b.toNat < 128 := by
  have hBits : ∀ bits : BitVec 8, bits &&& 0x80 = 0 ↔ bits.toNat < 128 := by decide
  rw [← UInt8.toBitVec_inj]
  exact hBits b.toBitVec

theorem toNat_and_lowBits_lt (b : UInt8) : (b &&& 0x7f).toNat < 128 := by
  rw [UInt8.toNat_and]
  exact Nat.lt_of_le_of_lt Nat.and_le_right (by decide)

-- ---------------------------------------------------------------------------
-- Writing
-- ---------------------------------------------------------------------------

theorem length_withSign_singleton (negative : Bool) (b : UInt8) :
    (withSign negative [b]).length = if b.toNat < 128 then 1 else 2 := by
  rw [withSign]
  by_cases hHigh : b &&& 0x80 = 0
  · rw [if_neg (not_not_intro hHigh), if_pos ((and_highBit_eq_zero_iff b).1 hHigh)]
    rfl
  · rw [if_pos hHigh, if_neg (mt (and_highBit_eq_zero_iff b).2 hHigh)]
    rfl

theorem length_withSign_cons_cons (negative : Bool) (b c : UInt8) (bs : Bytes) :
    (withSign negative (b :: c :: bs)).length = (withSign negative (c :: bs)).length + 1 := by
  rw [withSign, List.length_cons]

theorem length_withSign_pos (negative : Bool) (b : UInt8) (bs : Bytes) :
    1 ≤ (withSign negative (b :: bs)).length := by
  cases bs with
  | nil =>
    rw [length_withSign_singleton]
    split <;> omega
  | cons c bs =>
    rw [length_withSign_cons_cons]
    omega

/-- A magnitude that is written with its sign takes at most `k + 1` bytes just when it
leaves a bit of them to the sign. -/
theorem length_withSign_digits_le_iff (negative : Bool) (n k : Nat) :
    (withSign negative (Bytes.digitsLE n)).length ≤ k + 1 ↔ n < 2 ^ (8 * k + 7) := by
  induction n using Nat.strongRecOn generalizing k with
  | ind n ih =>
    by_cases hZero : n = 0
    · have hPos : 0 < 2 ^ (8 * k + 7) := Nat.pow_pos (by decide)
      subst hZero
      rw [Bytes.digitsLE_zero, withSign, List.length_nil]
      omega
    rw [Bytes.digitsLE_of_ne hZero]
    by_cases hLast : n / 256 = 0
    · -- the last digit, which may need a byte more for the sign
      have hDigit : (UInt8.ofNat n).toNat = n := by
        rw [UInt8.toNat_ofNat']
        omega
      rw [hLast, Bytes.digitsLE_zero, length_withSign_singleton, hDigit]
      cases k with
      | zero => split <;> omega
      | succ k =>
        have hTwo : 2 ^ 15 ≤ 2 ^ (8 * (k + 1) + 7) :=
          Nat.pow_le_pow_right (by decide) (by omega)
        split <;> omega
    · have hCons := Bytes.digitsLE_of_ne hLast
      rw [hCons, length_withSign_cons_cons, ← hCons]
      cases k with
      | zero =>
        have hMore := length_withSign_pos negative (UInt8.ofNat (n / 256))
          (Bytes.digitsLE (n / 256 / 256))
        rw [← hCons] at hMore
        omega
      | succ k =>
        have hRest : (withSign negative (Bytes.digitsLE (n / 256))).length ≤ k + 1 ↔
            n / 256 < 2 ^ (8 * k + 7) := ih (n / 256) (Nat.div_lt_self (by omega) (by decide)) k
        have hPow : 2 ^ (8 * (k + 1) + 7) = 2 ^ (8 * k + 7) * 256 := by
          rw [show 8 * (k + 1) + 7 = 8 * k + 7 + 8 by omega, Nat.pow_add]
        rw [Nat.add_le_add_iff_right, hRest, hPow, Nat.div_lt_iff_lt_mul (by decide)]

/-- A boolean is put on a stack as a number is. -/
theorem encode_ofBool (b : Bool) : encode (ofBool b) = if b then [1] else [] := by
  cases b with
  | true => decide +kernel
  | false => decide +kernel

/-- **The numbers that are written in at most `k + 1` bytes.** -/
theorem length_encode_le_iff (n : Int) (k : Nat) :
    (encode n).length ≤ k + 1 ↔ n.natAbs < 2 ^ (8 * k + 7) :=
  length_withSign_digits_le_iff _ _ k

-- ---------------------------------------------------------------------------
-- Reading
-- ---------------------------------------------------------------------------

theorem natAbs_decode_lt {bs : Bytes} {k : Nat} (h : bs.length ≤ k + 1) :
    (decode bs).natAbs < 2 ^ (8 * k + 7) := by
  unfold decode
  cases hLast : bs.getLast? with
  | none => exact Nat.pow_pos (by decide)
  | some last =>
    -- what the sign leaves of the last byte is below 128
    have hFront : bs.dropLast.length ≤ k := by
      rw [List.length_dropLast]
      omega
    have hLow := toNat_and_lowBits_lt last
    have hDigits := Bytes.toNatLE_lt bs.dropLast
    have hMagnitude : Bytes.toNatLE (bs.dropLast ++ [last &&& 0x7f]) < 2 ^ (8 * k + 7) := by
      rw [Bytes.toNatLE_append, Bytes.toNatLE_cons, Bytes.toNatLE_nil]
      calc Bytes.toNatLE bs.dropLast + 256 ^ bs.dropLast.length * ((last &&& 0x7f).toNat + 256 * 0)
          < 256 ^ bs.dropLast.length + 256 ^ bs.dropLast.length * 127 :=
            Nat.add_lt_add_of_lt_of_le hDigits (Nat.mul_le_mul_left _ (Nat.le_of_lt_succ hLow))
        _ = 2 ^ (8 * bs.dropLast.length + 7) := by
            rw [Nat.pow_add, Nat.pow_mul, show 2 ^ 8 = 256 by rfl]
            omega
        _ ≤ 2 ^ (8 * k + 7) := Nat.pow_le_pow_right (by decide) (by omega)
    dsimp only
    split
    · rw [Int.natAbs_neg, Int.natAbs_natCast]
      exact hMagnitude
    · rw [Int.natAbs_natCast]
      exact hMagnitude

theorem parse_eq_error {bs : Bytes} {limit : Nat} {cause : ScriptError}
    (h : parse bs limit = .error cause) : cause = .numOverflow := by
  unfold parse at h
  split at h
  · exact (Except.error.inj h).symm
  · cases h

/-- **The numbers that are read from at most `k + 1` bytes.** -/
theorem natAbs_lt_of_parse {bs : Bytes} {k : Nat} {n : Int} (h : parse bs (k + 1) = .ok n) :
    n.natAbs < 2 ^ (8 * k + 7) := by
  unfold parse at h
  split at h
  · cases h
  · next hLength =>
    rw [← Except.ok.inj h]
    exact natAbs_decode_lt (Nat.not_lt.1 hLength)

end Number

end LegacyScript
