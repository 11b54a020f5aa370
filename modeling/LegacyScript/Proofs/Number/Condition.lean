import LegacyScript.Proofs.Number.Codec

/-!
# Elements as conditions

Conditionals, demands and the verdict on a spend read an element as a condition. Arithmetic
reads it as a number and asks whether that is zero. The one reading looks at single bytes and
the other at the number that all of them make up, and still they never disagree: a byte that
makes an element true is one with a bit of the magnitude, and what is left are zeros and a
sign behind them, which both take for zero.

## Results

* `truthy_iff_exists`    — the byte that makes an element true.
* `truthy_iff_magnitude` — an element is true just when it has a magnitude.
* `conditions_agree`     — the two readings agree, also on what arithmetic writes.
-/

namespace LegacyScript.Number

/-- **The byte that makes an element true**: any one that is not zero, but for the sign alone
at the end. -/
theorem truthy_iff_exists (bs : Bytes) :
    truthy bs = true ↔
      ∃ front b rest, bs = front ++ b :: rest ∧ b ≠ 0x00 ∧ (rest = [] → b ≠ 0x80) := by
  induction bs using truthy.induct with
  | case1 => simp [truthy]
  | case2 last =>
    simp only [truthy, Bool.and_eq_true, decide_eq_true_eq]
    constructor
    · rintro ⟨hZero, hSign⟩
      exact ⟨[], last, [], rfl, hZero, fun _ => hSign⟩
    · rintro ⟨front, b, rest, hBytes, hZero, hSign⟩
      obtain ⟨rfl, hLast⟩ | ⟨-, hNone⟩ := List.singleton_eq_append_iff.1 hBytes
      · obtain ⟨rfl, rfl⟩ := List.cons.inj hLast
        exact ⟨hZero, hSign rfl⟩
      · cases hNone
  | case3 first second bs ih =>
    rw [truthy, Bool.or_eq_true, decide_eq_true_eq, ih]
    constructor
    · rintro (hFirst | ⟨front, b, rest, hBytes, hByte⟩)
      · exact ⟨[], first, second :: bs, rfl, hFirst, nofun⟩
      · exact ⟨first :: front, b, rest, congrArg (first :: ·) hBytes, hByte⟩
    · rintro ⟨front, b, rest, hBytes, hByte⟩
      cases front with
      | nil =>
        obtain ⟨rfl, -⟩ := List.cons.inj hBytes
        exact .inl hByte.1
      | cons other front =>
        obtain ⟨-, hRest⟩ := List.cons.inj hBytes
        exact .inr ⟨front, b, rest, hRest, hByte⟩

/-- **An element is true just when it has a magnitude**, whatever its sign. -/
theorem truthy_iff_magnitude (bs : Bytes) : truthy bs = true ↔ magnitude bs ≠ 0 := by
  have hByte (b : UInt8) : b.toNat ≠ 0 ↔ b ≠ 0x00 := not_congr (UInt8.toNat_inj (b := 0x00))
  induction bs using magnitude.induct with
  | case1 => simp [truthy, magnitude]
  | case2 last =>
    -- the sign is no part of the magnitude, and alone it makes nothing true
    have hLow : last &&& 0x7f ≠ 0 ↔ last ≠ 0x00 ∧ last ≠ 0x80 := by
      rw [← not_or]
      exact not_congr (and_lowBits_eq_zero_iff last)
    rw [truthy, magnitude, hByte, hLow, Bool.and_eq_true, decide_eq_true_eq, decide_eq_true_eq]
  | case3 b c bs ih =>
    have hSum : b.toNat + 256 * magnitude (c :: bs) ≠ 0 ↔
        b.toNat ≠ 0 ∨ magnitude (c :: bs) ≠ 0 := by
      omega
    rw [truthy, magnitude, hSum, hByte, Bool.or_eq_true, decide_eq_true_eq]
    exact or_congr_right ih

theorem truthy_iff_decode (bs : Bytes) : truthy bs = true ↔ decode bs ≠ 0 := by
  rw [truthy_iff_magnitude, ← natAbs_decode, ne_eq, Int.natAbs_eq_zero]

/-- **Conditions and numbers agree.** A byte string of any length is true as a condition just
when the number that it stands for is not zero, that is, when it has a byte other than zero
which is not a sign alone at its end. In particular, what is written for a number is true for
all numbers but zero. -/
theorem conditions_agree :
    (∀ bs : Bytes, truthy bs = true ↔ decode bs ≠ 0) ∧
    (∀ bs : Bytes, decode bs ≠ 0 ↔
      ∃ front b rest, bs = front ++ b :: rest ∧ b ≠ 0x00 ∧ (rest = [] → b ≠ 0x80)) ∧
    ∀ n : Int, truthy (encode n) = true ↔ n ≠ 0 := by
  refine ⟨truthy_iff_decode, ?_, ?_⟩
  · intro bs
    rw [← truthy_iff_decode, truthy_iff_exists]
  · intro n
    rw [truthy_iff_decode, decode_encode]

/-- A negative zero of two bytes is false, and the sign in front of a zero byte is not alone. -/
example : truthy [0x00, 0x80] = false ∧ truthy [0x80, 0x00] = true ∧
    decode [0x00, 0x80] = 0 ∧ decode [0x80, 0x00] = 128 := by
  decide +kernel

end LegacyScript.Number
