import LegacyScript.Der.Strict
import LegacyScript.Proofs.Number.Codec
import Mathlib.Algebra.Group.Nat.Even

/-!
# Numbers in a strict signature

A strict signature writes a number in base 256, the most significant digit first. There is
at least one byte, the high bit of the first byte is clear, and a zero stands in front only
to keep it clear (`Spells`). Every number is spelled by exactly one byte string: its digits,
behind a zero if they are none or begin with a high bit.

## Results

* `spells_iff`               — the one spelling of a number.
* `isMinimal_iff`            — the check of a spelling by its first two bytes.
* `isEven_iff`               — the last byte tells whether a number is even.
-/

namespace LegacyScript

namespace Bytes

theorem toNatBE_eq (bs : Bytes) : toNatBE bs = toNatLE bs.reverse := by
  rw [toNatBE, toNatLE, List.foldr_reverse]
  simp only [Nat.add_comm]

theorem toNatBE_concat (bs : Bytes) (b : UInt8) :
    toNatBE (bs ++ [b]) = b.toNat + 256 * toNatBE bs := by
  rw [toNatBE_eq, List.reverse_concat, toNatLE_cons, ← toNatBE_eq]

theorem toNatBE_zero_cons (bs : Bytes) : toNatBE (0x00 :: bs) = toNatBE bs := rfl

/-- Digits whose last one is not zero are the digits of their number. -/
theorem digitsLE_toNatLE_concat (bs : Bytes) {b : UInt8} (h : b ≠ 0) :
    toNatLE (bs ++ [b]) ≠ 0 ∧ digitsLE (toNatLE (bs ++ [b])) = bs ++ [b] := by
  induction bs with
  | nil =>
    have hNe : b.toNat ≠ 0 := fun hZero => h (UInt8.toNat_inj.1 hZero)
    exact ⟨hNe, digitsLE_of_toNat h⟩
  | cons c bs ih =>
    obtain ⟨hNe, hDigits⟩ := ih
    rw [List.cons_append, toNatLE_cons]
    refine ⟨by omega, ?_⟩
    rw [digitsLE_add c hNe, hDigits]

/-- A byte string without a leading zero is made of the digits of its number. -/
theorem digitsLE_toNatBE_cons {b : UInt8} (h : b ≠ 0) (bs : Bytes) :
    (digitsLE (toNatBE (b :: bs))).reverse = b :: bs := by
  rw [toNatBE_eq, List.reverse_cons, (digitsLE_toNatLE_concat bs.reverse h).2,
    List.reverse_concat, List.reverse_reverse]

theorem toNatBE_reverse_digitsLE (n : Nat) : toNatBE (digitsLE n).reverse = n := by
  rw [toNatBE_eq, List.reverse_reverse, toNatLE_digitsLE]

/-- The digits of a number do not end in a zero. -/
theorem getLast?_digitsLE_ne_zero (n : Nat) : ∀ last ∈ (digitsLE n).getLast?, last ≠ 0 := by
  induction n using Nat.strongRecOn with
  | ind n ih =>
    by_cases hZero : n = 0
    · rw [hZero, digitsLE_zero]
      nofun
    rw [digitsLE_of_ne hZero]
    by_cases hLast : n / 256 = 0
    · rw [hLast, digitsLE_zero]
      rintro last ⟨⟩ (hByte : UInt8.ofNat n = 0)
      have hDigit : (UInt8.ofNat n).toNat = n % 256 := UInt8.toNat_ofNat'
      rw [hByte, UInt8.toNat_zero] at hDigit
      omega
    · have hRest := ih (n / 256) (Nat.div_lt_self (by omega) (by decide))
      rw [digitsLE_of_ne hLast] at hRest ⊢
      rwa [List.getLast?_cons_cons]

end Bytes

namespace Der

/-- A byte string spells a number in the fewest bytes that leave the sign free. -/
structure Spells (bs : Bytes) (n : Nat) : Prop where
  toNatBE_eq : Bytes.toNatBE bs = n
  ne_nil : bs ≠ []
  /-- The high bit of the first byte is clear. -/
  sign_free : ∀ first ∈ bs.head?, first &&& 0x80 = 0
  /-- A zero in front keeps the high bit clear. -/
  no_padding : ∀ second rest, bs = 0x00 :: second :: rest → second &&& 0x80 ≠ 0

/-- The spelling of a number. -/
def ofNat (n : Nat) : Bytes :=
  match (Bytes.digitsLE n).reverse with
  | [] => [0x00]
  | first :: rest => if first &&& 0x80 = 0 then first :: rest else 0x00 :: first :: rest

theorem Spells.eq_ofNat {bs : Bytes} {n : Nat} (h : Spells bs n) : bs = ofNat n := by
  obtain ⟨rfl, hNe, hSign, hPadding⟩ := h
  cases bs with
  | nil => exact absurd rfl hNe
  | cons first rest =>
    by_cases hFirst : first = 0x00
    · subst hFirst
      cases rest with
      | nil => decide +kernel
      | cons second rest =>
        have hHigh := hPadding second rest rfl
        have hSecond : second ≠ 0 := by
          rintro rfl
          exact hHigh rfl
        rw [ofNat, Bytes.toNatBE_zero_cons, Bytes.digitsLE_toNatBE_cons hSecond]
        dsimp only
        rw [if_neg hHigh]
    · rw [ofNat, Bytes.digitsLE_toNatBE_cons hFirst]
      dsimp only
      rw [if_pos (hSign first rfl)]

theorem spells_ofNat (n : Nat) : Spells (ofNat n) n := by
  have hValue := Bytes.toNatBE_reverse_digitsLE n
  have hLast := Bytes.getLast?_digitsLE_ne_zero n
  rw [← List.head?_reverse] at hLast
  unfold ofNat
  split
  · next hNone =>
    -- zero is the one number without a digit
    rw [hNone] at hValue
    subst hValue
    refine ⟨rfl, List.cons_ne_nil _ _, ?_, nofun⟩
    rintro _ ⟨⟩
    rfl
  · next first rest hSome =>
    rw [hSome] at hValue hLast
    split
    · next hClear =>
      refine ⟨hValue, List.cons_ne_nil _ _, ?_, ?_⟩
      · rintro _ ⟨⟩
        exact hClear
      · rintro second tail ⟨⟩
        exact absurd rfl (hLast _ rfl)
    · next hHigh =>
      refine ⟨hValue, List.cons_ne_nil _ _, ?_, ?_⟩
      · rintro _ ⟨⟩
        rfl
      · rintro second tail ⟨⟩
        exact hHigh

/-- **Every number has one spelling.** -/
theorem spells_iff {bs : Bytes} {n : Nat} : Spells bs n ↔ bs = ofNat n := by
  constructor
  · exact Spells.eq_ofNat
  · rintro rfl
    exact spells_ofNat n

end Der

namespace StrictSignature

theorem lt_highBit_iff (b : UInt8) : b < 0x80 ↔ b &&& 0x80 = 0 :=
  Number.byteCases b (by decide)

theorem highBit_le_iff (b : UInt8) : 0x80 ≤ b ↔ b &&& 0x80 ≠ 0 :=
  Number.byteCases b (by decide)

/-- **The first two bytes tell whether a byte string is the spelling of its number.** -/
theorem isMinimal_iff (bs : Bytes) : isMinimal bs = true ↔ Der.Spells bs (Bytes.toNatBE bs) := by
  constructor
  · intro h
    match bs with
    | [] => cases h
    | [b] =>
      refine ⟨rfl, List.cons_ne_nil _ _, ?_, nofun⟩
      rintro _ ⟨⟩
      exact (lt_highBit_iff b).1 (of_decide_eq_true h)
    | b :: c :: rest =>
      simp only [isMinimal, Bool.and_eq_true, Bool.or_eq_true, decide_eq_true_eq] at h
      obtain ⟨hFirst, hSecond⟩ := h
      refine ⟨rfl, List.cons_ne_nil _ _, ?_, ?_⟩
      · rintro _ ⟨⟩
        exact (lt_highBit_iff b).1 hFirst
      · rintro second tail ⟨⟩
        exact (highBit_le_iff c).1 (hSecond.resolve_left (not_not_intro rfl))
  · rintro ⟨-, hNe, hSign, hPadding⟩
    match bs with
    | [] => exact absurd rfl hNe
    | [b] => exact decide_eq_true ((lt_highBit_iff b).2 (hSign b rfl))
    | b :: c :: rest =>
      simp only [isMinimal, Bool.and_eq_true, Bool.or_eq_true, decide_eq_true_eq]
      refine ⟨(lt_highBit_iff b).2 (hSign b rfl), ?_⟩
      by_cases hFirst : b = 0x00
      · subst hFirst
        exact .inr ((highBit_le_iff c).2 (hPadding c rest rfl))
      · exact .inl hFirst

theorem and_one_eq_zero_iff (b : UInt8) : b &&& 1 = 0 ↔ Even b.toNat := by
  rw [Nat.even_iff]
  exact Number.byteCases b (by decide)

/-- **The last byte tells whether a number is even.** -/
theorem isEven_iff (bs : Bytes) : isEven bs = true ↔ Even (Bytes.toNatBE bs) := by
  rcases List.eq_nil_or_concat bs with rfl | ⟨front, last, rfl⟩
  · decide
  · -- all digits but the last count for a multiple of 256
    have hRest : Even (256 * Bytes.toNatBE front) := Nat.even_mul.2 (.inl (by decide))
    rw [List.concat_eq_append, isEven, List.getLast?_concat, Bytes.toNatBE_concat,
      Nat.even_add, iff_true_right hRest, beq_iff_eq, and_one_eq_zero_iff]

end StrictSignature

end LegacyScript
