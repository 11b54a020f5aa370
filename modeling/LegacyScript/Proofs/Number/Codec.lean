import LegacyScript.Proofs.Number.Length
import Mathlib.Algebra.Order.Group.Unbundled.Int

/-!
# Writing numbers and reading them back

A byte string is read as a sign, the high bit of its last byte, and a magnitude, all its
other bits. Many byte strings stand for one number: a byte without a bit of the magnitude
may follow, and zero has two signs. `Minimal` says of a byte string, by its last two bytes
alone, that its last byte is needed, for a bit of the magnitude or for the sign next to a
byte that is full.

What is minimal is written again as it was. What is not minimal is written in fewer bytes.
Both together make the written form of a number the only shortest one.

## Results

* `decode_encode`             — a number that is written is read back.
* `encode_decode_of_minimal`  — a minimal byte string is the written form of its number.
* `length_encode_decode_lt`   — any other is longer than the written form.
* `codec_minimal`             — the codec, with the operands of each size.
-/

namespace LegacyScript

theorem Bytes.digitsLE_add {n : Nat} (b : UInt8) (h : n ≠ 0) :
    Bytes.digitsLE (b.toNat + 256 * n) = b :: Bytes.digitsLE n := by
  have hByte := b.toNat_lt
  have hLow : UInt8.ofNat (b.toNat + 256 * n) = b := by
    rw [← UInt8.toNat_inj, UInt8.toNat_ofNat']
    omega
  have hRest : (b.toNat + 256 * n) / 256 = n := by omega
  rw [Bytes.digitsLE_of_ne (by omega), hLow, hRest]

theorem Bytes.digitsLE_of_toNat {b : UInt8} (h : b ≠ 0) : Bytes.digitsLE b.toNat = [b] := by
  have hNe : b.toNat ≠ 0 := fun hZero => h (UInt8.toNat_inj.1 hZero)
  have hDiv : b.toNat / 256 = 0 := Nat.div_eq_of_lt b.toNat_lt
  rw [Bytes.digitsLE_of_ne hNe, hDiv, Bytes.digitsLE_zero, UInt8.ofNat_toNat]

namespace Number

-- ---------------------------------------------------------------------------
-- The two parts of a last byte
-- ---------------------------------------------------------------------------

section LastByte

variable (b : UInt8)

/-- What holds of all strings of eight bits holds of every byte. -/
@[elab_as_elim]
theorem byteCases {motive : UInt8 → Prop} (h : ∀ bits : BitVec 8, motive ⟨bits⟩) : motive b :=
  h b.toBitVec

theorem and_lowBits_eq_self : b &&& 0x80 = 0 → b &&& 0x7f = b :=
  byteCases b (by decide)

theorem and_lowBits_or_highBit : b &&& 0x80 ≠ 0 → b &&& 0x7f ||| 0x80 = b :=
  byteCases b (by decide)

theorem or_highBit_and_lowBits : (b ||| 0x80) &&& 0x7f = b &&& 0x7f :=
  byteCases b (by decide)

theorem or_highBit_and_highBit : (b ||| 0x80) &&& 0x80 ≠ 0 :=
  byteCases b (by decide)

theorem and_lowBits_and_highBit : b &&& 0x7f &&& 0x80 = 0 :=
  byteCases b (by decide)

theorem and_lowBits_eq_zero_iff : b &&& 0x7f = 0 ↔ b = 0x00 ∨ b = 0x80 :=
  byteCases b (by decide)

end LastByte

-- ---------------------------------------------------------------------------
-- Sign and magnitude of a byte string
-- ---------------------------------------------------------------------------

/-- The integer of a sign and a magnitude. -/
def signed (negative : Bool) (n : Nat) : Int :=
  if negative then -n else n

/-- The sign that a byte string is read with. -/
def negative : Bytes → Bool
  | [] => false
  | [last] => last &&& 0x80 ≠ 0
  | _ :: c :: bs => negative (c :: bs)

/-- The magnitude that a byte string is read with. -/
def magnitude : Bytes → Nat
  | [] => 0
  | [last] => (last &&& 0x7f).toNat
  | b :: c :: bs => b.toNat + 256 * magnitude (c :: bs)

theorem negative_cons {bs : Bytes} (b : UInt8) (h : bs ≠ []) :
    negative (b :: bs) = negative bs := by
  cases bs with
  | nil => exact absurd rfl h
  | cons c bs => rw [negative]

theorem magnitude_cons {bs : Bytes} (b : UInt8) (h : bs ≠ []) :
    magnitude (b :: bs) = b.toNat + 256 * magnitude bs := by
  cases bs with
  | nil => exact absurd rfl h
  | cons c bs => rw [magnitude]

@[simp] theorem natAbs_signed (negative : Bool) (n : Nat) : (signed negative n).natAbs = n := by
  cases negative with
  | true => exact Int.natAbs_neg _
  | false => rfl

theorem signed_neg_iff {negative : Bool} {n : Nat} (h : n ≠ 0) :
    signed negative n < 0 ↔ negative = true := by
  cases negative with
  | true => simp [signed, Nat.pos_of_ne_zero h]
  | false => simp [signed]

theorem signed_of_lt_zero (n : Int) : signed (n < 0) n.natAbs = n := by
  unfold signed
  by_cases hNeg : n < 0
  · rw [if_pos (decide_eq_true hNeg)]
    omega
  · rw [if_neg (by simpa using hNeg)]
    omega

/-- A byte string is read as its sign and its magnitude. -/
theorem decode_eq_signed (bs : Bytes) : decode bs = signed (negative bs) (magnitude bs) := by
  have hParts : ∀ last, bs.getLast? = some last →
      negative bs = decide (last &&& 0x80 ≠ 0) ∧
        magnitude bs = Bytes.toNatLE (bs.dropLast ++ [last &&& 0x7f]) := by
    induction bs using magnitude.induct with
    | case1 => simp
    | case2 b => simp [negative, magnitude]
    | case3 b c bs ih =>
      intro last hLast
      rw [List.getLast?_cons_cons] at hLast
      obtain ⟨hSign, hMagnitude⟩ := ih last hLast
      rw [negative, magnitude, hSign, hMagnitude, List.dropLast_cons_cons, List.cons_append,
        Bytes.toNatLE_cons]
      exact ⟨rfl, rfl⟩
  unfold decode
  cases hLast : bs.getLast? with
  | none =>
    rw [List.getLast?_eq_none_iff.1 hLast]
    rfl
  | some last =>
    obtain ⟨hSign, hMagnitude⟩ := hParts last hLast
    rw [hSign, hMagnitude]
    simp only [signed, decide_eq_true_eq]

theorem natAbs_decode (bs : Bytes) : (decode bs).natAbs = magnitude bs := by
  rw [decode_eq_signed, natAbs_signed]

-- ---------------------------------------------------------------------------
-- What is written is read back
-- ---------------------------------------------------------------------------

theorem withSign_ne_nil (sign : Bool) (b : UInt8) (bs : Bytes) : withSign sign (b :: bs) ≠ [] :=
  List.ne_nil_of_length_pos (length_withSign_pos sign b bs)

theorem magnitude_withSign (sign : Bool) (digits : Bytes) :
    magnitude (withSign sign digits) = Bytes.toNatLE digits := by
  induction digits using magnitude.induct with
  | case1 => rfl
  | case2 b =>
    rw [withSign]
    by_cases hHigh : b &&& 0x80 = 0
    · -- the sign goes into the byte, and the magnitude is what it was
      have hLow : (if sign then b ||| 0x80 else b) &&& 0x7f = b := by
        cases sign with
        | true => exact (or_highBit_and_lowBits b).trans (and_lowBits_eq_self b hHigh)
        | false => exact and_lowBits_eq_self b hHigh
      rw [if_neg (not_not_intro hHigh), magnitude, hLow]
      simp
    · have hLow : (if sign then 0x80 else 0x00 : UInt8) &&& 0x7f = 0 := by
        cases sign with
        | true => rfl
        | false => rfl
      rw [if_pos hHigh, magnitude, magnitude, hLow]
      simp
  | case3 b c bs ih =>
    rw [withSign, magnitude_cons b (withSign_ne_nil sign c bs), ih, Bytes.toNatLE_cons b]

theorem negative_withSign (sign : Bool) (b : UInt8) (digits : Bytes) :
    negative (withSign sign (b :: digits)) = sign := by
  induction digits generalizing b with
  | nil =>
    rw [withSign]
    by_cases hHigh : b &&& 0x80 = 0
    · rw [if_neg (not_not_intro hHigh), negative]
      cases sign with
      | true => simp [or_highBit_and_highBit]
      | false => simp [hHigh]
    · rw [if_pos hHigh, negative, negative]
      cases sign with
      | true => rfl
      | false => rfl
  | cons c digits ih => rw [withSign, negative_cons b (withSign_ne_nil sign c digits), ih]

/-- **A number that is written is read back.** -/
theorem decode_encode (n : Int) : decode (encode n) = n := by
  have hMagnitude : magnitude (encode n) = n.natAbs := by
    rw [encode, magnitude_withSign, Bytes.toNatLE_digitsLE]
  by_cases hZero : n = 0
  · have hDecode : (decode (encode n)).natAbs = 0 := by
      rw [natAbs_decode, hMagnitude, hZero, Int.natAbs_zero]
    rw [Int.natAbs_eq_zero.1 hDecode, hZero]
  · have hSign : negative (encode n) = decide (n < 0) := by
      rw [encode, Bytes.digitsLE_of_ne (Int.natAbs_ne_zero.2 hZero), negative_withSign]
    rw [decode_eq_signed, hMagnitude, hSign, signed_of_lt_zero]

-- ---------------------------------------------------------------------------
-- Minimal byte strings
-- ---------------------------------------------------------------------------

/-- Whether the last byte of a byte string is needed: it has a bit of the magnitude, or
the byte in front of it has no room for the sign. -/
def Minimal : Bytes → Prop
  | [] => True
  | [last] => last &&& 0x7f ≠ 0
  | [high, last] => last &&& 0x7f ≠ 0 ∨ high &&& 0x80 ≠ 0
  | _ :: b :: c :: bs => Minimal (b :: c :: bs)

/-- Being minimal shows at the end of a byte string. -/
theorem minimal_iff (bs : Bytes) :
    Minimal bs ↔ bs = [] ∨ (∃ last, [last] <:+ bs ∧ last &&& 0x7f ≠ 0) ∨
      ∃ high last, [high, last] <:+ bs ∧ (last = 0x00 ∨ last = 0x80) ∧ high &&& 0x80 ≠ 0 := by
  induction bs using Minimal.induct with
  | case1 => simp [Minimal]
  | case2 last => simp [Minimal, List.suffix_cons_iff]
  | case3 high last =>
    have hLow := and_lowBits_eq_zero_iff last
    simp only [Minimal, List.suffix_cons_iff]
    by_cases hLast : last &&& 0x7f = 0
    · simp [hLast, hLow.1 hLast]
    · simp [hLast]
  | case4 a b c bs ih =>
    -- the last two bytes are behind the first
    have hShort (ending : Bytes) (h : ending.length < 3) :
        ending <:+ a :: b :: c :: bs ↔ ending <:+ b :: c :: bs := by
      rw [List.suffix_cons_iff]
      refine or_iff_right ?_
      rintro rfl
      simp only [List.length_cons] at h
      omega
    rw [Minimal, ih]
    simp [hShort]

theorem magnitude_pos {bs : Bytes} (h : Minimal bs) (hNil : bs ≠ []) : 0 < magnitude bs := by
  have hPos {b : UInt8} (hNe : b ≠ 0) : 0 < b.toNat :=
    Nat.pos_of_ne_zero fun hZero => hNe (UInt8.toNat_inj.1 hZero)
  induction bs using Minimal.induct with
  | case1 => exact absurd rfl hNil
  | case2 last => exact hPos h
  | case3 high last =>
    rw [magnitude, magnitude]
    rcases h with hLast | hHigh
    · have := hPos hLast
      omega
    · have hByte : high ≠ 0 := by
        rintro rfl
        exact hHigh rfl
      have := hPos hByte
      omega
  | case4 a b c bs ih =>
    have := ih h (List.cons_ne_nil _ _)
    rw [magnitude]
    omega

theorem withSign_magnitude_cons {bs : Bytes} (b : UInt8) (hNil : bs ≠ []) (hPos : 0 < magnitude bs)
    (h : withSign (negative bs) (Bytes.digitsLE (magnitude bs)) = bs) :
    withSign (negative (b :: bs)) (Bytes.digitsLE (magnitude (b :: bs))) = b :: bs := by
  have hNe : magnitude bs ≠ 0 := Nat.ne_of_gt hPos
  have hDigits := Bytes.digitsLE_of_ne hNe
  rw [negative_cons b hNil, magnitude_cons b hNil, Bytes.digitsLE_add b hNe, hDigits, withSign,
    ← hDigits, h]

theorem withSign_magnitude_singleton {last : UInt8} (h : last &&& 0x7f ≠ 0) :
    withSign (negative [last]) (Bytes.digitsLE (magnitude [last])) = [last] := by
  have hClear := and_lowBits_and_highBit last
  rw [negative, magnitude, Bytes.digitsLE_of_toNat h, withSign, if_neg (not_not_intro hClear)]
  by_cases hHigh : last &&& 0x80 = 0
  · simp [hHigh, and_lowBits_eq_self]
  · simp [hHigh, and_lowBits_or_highBit]

/-- The digits of the magnitude of a minimal byte string, with its sign, are the byte
string. -/
theorem withSign_magnitude {bs : Bytes} (h : Minimal bs) :
    withSign (negative bs) (Bytes.digitsLE (magnitude bs)) = bs := by
  induction bs using Minimal.induct with
  | case1 =>
    rw [magnitude, Bytes.digitsLE_zero]
    rfl
  | case2 last => exact withSign_magnitude_singleton h
  | case3 high last =>
    by_cases hLast : last &&& 0x7f = 0
    · -- the byte in front is full, and the last one is the sign alone
      have hHigh : high &&& 0x80 ≠ 0 := h.resolve_left (not_not_intro hLast)
      have hByte : high ≠ 0 := by
        rintro rfl
        exact hHigh rfl
      rw [magnitude, magnitude, hLast, UInt8.toNat_zero, Nat.mul_zero, Nat.add_zero,
        Bytes.digitsLE_of_toNat hByte, withSign, if_pos hHigh]
      rcases (and_lowBits_eq_zero_iff last).1 hLast with rfl | rfl
      · rfl
      · rfl
    · have hMinimal : Minimal [last] := hLast
      exact withSign_magnitude_cons high (List.cons_ne_nil _ _)
        (magnitude_pos hMinimal (List.cons_ne_nil _ _)) (withSign_magnitude_singleton hLast)
  | case4 a b c bs ih =>
    exact withSign_magnitude_cons a (List.cons_ne_nil _ _) (magnitude_pos h (List.cons_ne_nil _ _))
      (ih h)

/-- **A minimal byte string is the written form of its number.** -/
theorem encode_decode_of_minimal {bs : Bytes} (h : Minimal bs) : encode (decode bs) = bs := by
  by_cases hNil : bs = []
  · subst hNil
    rw [encode, natAbs_decode, magnitude, Bytes.digitsLE_zero, withSign]
  · have hNe : magnitude bs ≠ 0 := Nat.ne_of_gt (magnitude_pos h hNil)
    have hSign : decide (decode bs < 0) = negative bs := by
      rw [decode_eq_signed, Bool.eq_iff_iff, decide_eq_true_iff, signed_neg_iff hNe]
    rw [encode, hSign, natAbs_decode, withSign_magnitude h]

-- ---------------------------------------------------------------------------
-- Byte strings that are not minimal
-- ---------------------------------------------------------------------------

/-- Without its last byte, a byte string that is not minimal has room for its number. -/
theorem magnitude_lt_of_not_minimal {bs : Bytes} {k : Nat} (h : ¬ Minimal bs)
    (hLength : bs.length = k + 2) : magnitude bs < 2 ^ (8 * k + 7) := by
  induction bs using Minimal.induct generalizing k with
  | case1 => exact absurd trivial h
  | case2 last => simp at hLength
  | case3 high last =>
    simp only [Minimal, not_or, not_not] at h
    obtain ⟨hLast, hHigh⟩ := h
    have hByte := (and_highBit_eq_zero_iff high).1 hHigh
    obtain rfl : k = 0 := by simpa using hLength.symm
    rw [magnitude, magnitude, hLast, UInt8.toNat_zero]
    omega
  | case4 a b c bs ih =>
    have hByte := a.toNat_lt
    obtain ⟨k, rfl⟩ : ∃ l, k = l + 1 := ⟨bs.length, by simpa using hLength.symm⟩
    have hRest := ih h (Nat.succ.inj hLength)
    have hPow : 2 ^ (8 * (k + 1) + 7) = 2 ^ (8 * k + 7) * 256 := by
      rw [show 8 * (k + 1) + 7 = 8 * k + 7 + 8 by omega, Nat.pow_add]
    rw [magnitude, hPow]
    omega

/-- **A byte string that is not minimal is longer than the written form of its number.** -/
theorem length_encode_decode_lt {bs : Bytes} (h : ¬ Minimal bs) :
    (encode (decode bs)).length < bs.length := by
  match hLength : bs.length with
  | 0 =>
    rw [List.length_eq_zero_iff.1 hLength] at h
    exact absurd trivial h
  | 1 =>
    obtain ⟨last, rfl⟩ := List.length_eq_one_iff.1 hLength
    have hZero : last &&& 0x7f = 0 := not_not.1 h
    rw [encode, natAbs_decode, magnitude, hZero, UInt8.toNat_zero, Bytes.digitsLE_zero, withSign]
    exact Nat.zero_lt_one
  | k + 2 =>
    have hRoom := magnitude_lt_of_not_minimal h hLength
    rw [← natAbs_decode, ← length_encode_le_iff] at hRoom
    exact Nat.lt_succ_of_le hRoom

theorem encode_decode_eq_iff (bs : Bytes) : encode (decode bs) = bs ↔ Minimal bs := by
  constructor
  · intro hEq
    by_contra hNot
    exact Nat.ne_of_lt (length_encode_decode_lt hNot) (congrArg List.length hEq)
  · exact encode_decode_of_minimal

theorem length_encode_decode_le (bs : Bytes) : (encode (decode bs)).length ≤ bs.length := by
  by_cases h : Minimal bs
  · rw [encode_decode_of_minimal h]
  · exact Nat.le_of_lt (length_encode_decode_lt h)

-- ---------------------------------------------------------------------------
-- The codec
-- ---------------------------------------------------------------------------

/-- The numbers of a size, by their magnitude. -/
theorem length_encode_le_iff_abs (n : Int) {k : Nat} (hk : 1 ≤ k) :
    (encode n).length ≤ k ↔ |n| ≤ 2 ^ (8 * k - 1) - 1 := by
  obtain ⟨k, rfl⟩ := Nat.exists_eq_add_of_le' hk
  have hPow : (2 : Int) ^ (8 * (k + 1) - 1) = ((2 ^ (8 * k + 7) : Nat) : Int) := by
    rw [show 8 * (k + 1) - 1 = 8 * k + 7 by omega]
    push_cast
    rfl
  rw [length_encode_le_iff, hPow, Int.abs_eq_natAbs]
  omega

theorem parse_eq_ok_iff {bs : Bytes} {limit : Nat} {n : Int} :
    parse bs limit = .ok n ↔ bs.length ≤ limit ∧ decode bs = n := by
  unfold parse
  split
  · simp; omega
  · simp; omega

/-- **The codec is minimal and complete.** A number that is written is read back, and every
other byte string that is read as the same number is longer. The numbers that are written
in at most `k` bytes are those of magnitude at most `2 ^ (8 * k - 1) - 1`. What is read and
written again gets no longer, and stays the same just when it is empty, ends in a byte with
a bit of the magnitude, or ends in a byte for the sign alone behind one with its high bit
set. So operands of at most `limit` bytes are all byte strings of that length, and their
values all integers of that size. -/
theorem codec_minimal :
    (∀ n : Int, decode (encode n) = n ∧
      (∀ bs, decode bs = n → bs ≠ encode n → (encode n).length < bs.length) ∧
      ∀ k, 1 ≤ k → ((encode n).length ≤ k ↔ |n| ≤ 2 ^ (8 * k - 1) - 1)) ∧
    (∀ bs : Bytes, (encode (decode bs)).length ≤ bs.length ∧
      (encode (decode bs) = bs ↔
        bs = [] ∨ (∃ last, [last] <:+ bs ∧ last &&& 0x7f ≠ 0) ∨
          ∃ high last, [high, last] <:+ bs ∧ (last = 0x00 ∨ last = 0x80) ∧ high &&& 0x80 ≠ 0)) ∧
    ∀ limit, 1 ≤ limit →
      (∀ bs, (bs.length ≤ limit → parse bs limit = .ok (decode bs)) ∧
        (limit < bs.length → parse bs limit = .error .numOverflow)) ∧
      ∀ n, (∃ bs, parse bs limit = .ok n) ↔ |n| ≤ 2 ^ (8 * limit - 1) - 1 := by
  refine ⟨?_, ?_, ?_⟩
  · intro n
    refine ⟨decode_encode n, ?_, fun k hk => length_encode_le_iff_abs n hk⟩
    rintro bs rfl hNe
    exact length_encode_decode_lt fun hMinimal => hNe (encode_decode_of_minimal hMinimal).symm
  · intro bs
    exact ⟨length_encode_decode_le bs, (encode_decode_eq_iff bs).trans (minimal_iff bs)⟩
  · intro limit hLimit
    refine ⟨fun bs => ⟨?_, ?_⟩, ?_⟩
    · intro hLength
      rw [parse, if_neg (Nat.not_lt.2 hLength)]
    · intro hLength
      rw [parse, if_pos hLength]
    · intro n
      rw [← length_encode_le_iff_abs n hLimit]
      constructor
      · rintro ⟨bs, hParse⟩
        obtain ⟨hLength, rfl⟩ := parse_eq_ok_iff.1 hParse
        exact (length_encode_decode_le bs).trans hLength
      · intro hLength
        exact ⟨encode n, parse_eq_ok_iff.2 ⟨hLength, decode_encode n⟩⟩

/-- The first number that does not fit a byte, and a byte string of the same number that
has one byte too many. -/
theorem codec_minimal_highBit :
    let bs : Bytes := [0x80, 0x00, 0x00]
    decode bs = 128 ∧ bs ≠ encode 128 ∧ (encode 128).length < bs.length ∧
      ¬ (encode 128).length ≤ 1 ∧ (∃ bs, parse bs 2 = .ok 128) ∧
      parse bs 2 = .error .numOverflow := by
  intro bs
  obtain ⟨hNumbers, -, hOperands⟩ := codec_minimal
  obtain ⟨hDecode, hShortest, hSize⟩ := hNumbers 128
  obtain ⟨hParse, hValues⟩ := hOperands 2 (by decide)
  have hRead : decode bs = 128 := by decide +kernel
  have hNe : bs ≠ encode 128 := by decide +kernel
  refine ⟨hRead, hNe, hShortest bs hRead hNe, ?_, (hValues 128).2 (by decide),
    (hParse bs).2 (by decide)⟩
  rw [hSize 1 (by decide)]
  decide

end Number

end LegacyScript
