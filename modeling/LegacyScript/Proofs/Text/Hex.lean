import LegacyScript.Text.Hex
import LegacyScript.Proofs.Text.Words
import Mathlib.Data.List.Induction

/-!
# Hexadecimal text and bytes

Bytes that are written in digits are read back. A text is read just when it has an even
number of characters and each of them is a digit; it is then the text of the bytes but for
the case of its digits.

## Results

* `decode_toList_encode` — what is written is read back.
* `exists_decode_iff`    — what can be read.
* `encode_of_decode`     — what is read is written in lower case.
-/

namespace LegacyScript.Text.Hex

-- ---------------------------------------------------------------------------
-- Digits
-- ---------------------------------------------------------------------------

/-- A digit of either case. -/
def IsDigit (c : Char) : Prop :=
  ('0' ≤ c ∧ c ≤ '9') ∨ ('a' ≤ c ∧ c ≤ 'f') ∨ ('A' ≤ c ∧ c ≤ 'F')

instance : DecidablePred IsDigit := fun _ => inferInstanceAs (Decidable (_ ∨ _))

theorem isDigit_iff (c : Char) : IsDigit c ↔ (value? c).isSome = true := by
  unfold IsDigit value?
  split
  · simp [*]
  · split
    · simp [*]
    · split
      · simp [*]
      · simp [*]

/-- What holds of the first 128 characters holds of every digit. -/
@[elab_as_elim]
theorem IsDigit.cases {motive : Char → Prop} {c : Char} (h : IsDigit c)
    (hAscii : ∀ n : Fin 128, IsDigit (Char.ofNat n) → motive (Char.ofNat n)) : motive c := by
  have hBound : c.toNat < 128 := by
    have hRange : c.toNat ≤ 'f'.toNat := by
      rcases h with ⟨-, h⟩ | ⟨-, h⟩ | ⟨-, h⟩
      · exact Nat.le_trans h (by decide)
      · exact h
      · exact Nat.le_trans h (by decide)
    exact Nat.lt_of_le_of_lt hRange (by decide)
  rw [← Char.ofNat_toNat c] at h ⊢
  exact hAscii ⟨c.toNat, hBound⟩ h

theorem IsDigit.not_blank {c : Char} (h : IsDigit c) : isBlank c = false :=
  h.cases (by decide)

/-- The digit of the value of a digit is that digit in lower case. -/
theorem IsDigit.exists_value {c : Char} (h : IsDigit c) :
    ∃ v : Fin 16, value? c = some v.val ∧ digit v = c.toLower :=
  h.cases (by decide)

theorem value_digit : ∀ v : Fin 16, value? (digit v) = some v.val := by
  decide

/-- The two digits of a byte are read as that byte. -/
theorem toByte_digits (b : UInt8) :
    toByte? (digit (b.toNat / 16)) (digit (b.toNat % 16)) = some b := by
  have hByte := b.toNat_lt
  have hHigh := value_digit ⟨b.toNat / 16, by omega⟩
  have hLow := value_digit ⟨b.toNat % 16, by omega⟩
  rw [toByte?, hHigh, hLow]
  simp [Nat.div_add_mod]

-- ---------------------------------------------------------------------------
-- Digits in pairs
-- ---------------------------------------------------------------------------

theorem decodeOnto_eq (read : Bytes) (cs : List Char) :
    decodeOnto read cs = (decode? cs).map (read.reverse ++ ·) := by
  unfold decode?
  induction cs using List.twoStepInduction generalizing read with
  | nil => simp [decodeOnto]
  | singleton c => simp [decodeOnto]
  | cons_cons high low rest ih _ =>
    rw [decodeOnto, decodeOnto]
    cases toByte? high low with
    | none => rfl
    | some b =>
      dsimp only
      rw [ih (b :: read), ih [b]]
      simp [Function.comp_def]

@[simp] theorem decode_nil : decode? [] = some [] := rfl

@[simp] theorem decode_singleton (c : Char) : decode? [c] = none := rfl

theorem decode_cons_cons (high low : Char) (rest : List Char) :
    decode? (high :: low :: rest) =
      (toByte? high low).bind fun b => (decode? rest).map (b :: ·) := by
  rw [decode?, decodeOnto]
  cases toByte? high low with
  | none => rfl
  | some b => exact decodeOnto_eq [b] rest

/-- **What is written is read back.** -/
theorem decode_toList_encode (bs : Bytes) : decode? (encode bs).toList = some bs := by
  rw [encode, String.toList_ofList]
  induction bs with
  | nil => rfl
  | cons b bs ih =>
    rw [List.flatMap_cons, ofByte, List.cons_append, List.cons_append, List.nil_append,
      decode_cons_cons, toByte_digits, ih]
    rfl

theorem exists_toByte_iff (high low : Char) :
    (∃ b, toByte? high low = some b) ↔ IsDigit high ∧ IsDigit low := by
  rw [isDigit_iff, isDigit_iff, toByte?]
  cases value? high with
  | none => simp
  | some h =>
    cases value? low with
    | none => simp
    | some l => simp

/-- **What can be read**: an even number of digits. -/
theorem exists_decode_iff (cs : List Char) :
    (∃ bs, decode? cs = some bs) ↔ cs.length % 2 = 0 ∧ ∀ c ∈ cs, IsDigit c := by
  induction cs using List.twoStepInduction with
  | nil => simp
  | singleton c => simp
  | cons_cons high low rest ih _ =>
    have hPair : (∃ bs, decode? (high :: low :: rest) = some bs) ↔
        (∃ b, toByte? high low = some b) ∧ ∃ bs, decode? rest = some bs := by
      rw [decode_cons_cons]
      cases toByte? high low with
      | none => simp
      | some b =>
        cases decode? rest with
        | none => simp
        | some bs => simp
    have hEven : (rest.length + 1 + 1) % 2 = 0 ↔ rest.length % 2 = 0 := by omega
    rw [hPair, exists_toByte_iff, ih, List.length_cons, List.length_cons, hEven,
      List.forall_mem_cons, List.forall_mem_cons]
    constructor
    · rintro ⟨⟨hHigh, hLow⟩, hLength, hRest⟩
      exact ⟨hLength, hHigh, hLow, hRest⟩
    · rintro ⟨hLength, hHigh, hLow, hRest⟩
      exact ⟨⟨hHigh, hLow⟩, hLength, hRest⟩

theorem isDigit_of_mem_encode (bs : Bytes) : ∀ c ∈ (encode bs).toList, IsDigit c :=
  ((exists_decode_iff _).1 ⟨bs, decode_toList_encode bs⟩).2

theorem isWord_encode {bs : Bytes} (h : bs ≠ []) : IsWord (encode bs) := by
  refine ⟨fun hNil => ?_, fun c hMem => (isDigit_of_mem_encode bs c hMem).not_blank⟩
  have hData := decode_toList_encode bs
  rw [hNil] at hData
  exact h (Option.some.inj hData).symm

/-- **What is read is written in lower case**, two digits to a byte. -/
theorem encode_of_decode {cs : List Char} {bs : Bytes} (h : decode? cs = some bs) :
    (encode bs).toList = cs.map Char.toLower ∧ cs.length = 2 * bs.length := by
  rw [encode, String.toList_ofList]
  induction cs using List.twoStepInduction generalizing bs with
  | nil =>
    obtain rfl : [] = bs := Option.some.inj h
    exact ⟨rfl, rfl⟩
  | singleton c => simp at h
  | cons_cons high low rest ih _ =>
    rw [decode_cons_cons, Option.bind_eq_some_iff] at h
    obtain ⟨b, hByte, hMap⟩ := h
    obtain ⟨bs, hRest, rfl⟩ := Option.map_eq_some_iff.1 hMap
    obtain ⟨hText, hLength⟩ := ih hRest
    obtain ⟨hHigh, hLow⟩ := (exists_toByte_iff high low).1 ⟨b, hByte⟩
    obtain ⟨u, hu, hUpper⟩ := hHigh.exists_value
    obtain ⟨v, hv, hLower⟩ := hLow.exists_value
    rw [toByte?, hu, hv] at hByte
    obtain rfl : UInt8.ofNat (16 * u.val + v.val) = b := Option.some.inj hByte
    have hNat : (UInt8.ofNat (16 * u.val + v.val)).toNat = 16 * u.val + v.val := by
      rw [UInt8.toNat_ofNat']
      omega
    have hDiv : (16 * u.val + v.val) / 16 = u.val := by omega
    have hMod : (16 * u.val + v.val) % 16 = v.val := by omega
    refine ⟨?_, ?_⟩
    · rw [List.flatMap_cons, hText, ofByte, hNat, hDiv, hMod, hUpper, hLower]
      rfl
    · rw [List.length_cons, List.length_cons, List.length_cons, hLength]
      omega

end LegacyScript.Text.Hex
