import LegacyScript.Proofs.Bytes
import LegacyScript.Wire
import Mathlib.Tactic.Common

/-!
# Readers that undo writers

A reader undoes a writer (`Reader.Undoes`) when it takes a value off the front of a byte
string just where the bytes written for that value stand there, and the value is one that
fits: its lengths and counts can be written. This one equivalence holds all that is wanted of
a pair. From right to left, what is written is read back, with anything behind it. From left
to right, there is no other way to write a value that is read, and what follows it is not
looked at.

Lines of a reader are taken apart by `bind_eq_ok_iff`. For CompactSize the two sides meet in
the four forms: the least number of each is one more than the largest of the form before.

## Results

* `CompactSize.read_undoes` — a number has its shortest form, and no other.
* `readBytes_undoes`        — so does a byte string behind its length.
* `readList_undoes`         — and so do values behind their count.
-/

namespace LegacyScript

namespace Wire

open Bytes (ofNatLE toNatLE)

namespace Reader

variable {α β : Type} {bs rest : Bytes}

-- ---------------------------------------------------------------------------
-- Lines
-- ---------------------------------------------------------------------------

theorem pure_eq_ok_iff {a b : α} :
    (pure a : Reader α) bs = .ok (b, rest) ↔ b = a ∧ bs = rest := by
  show (Except.ok (a, bs) : Except Error (α × Bytes)) = .ok (b, rest) ↔ b = a ∧ bs = rest
  rw [Except.ok.injEq, Prod.mk.injEq, eq_comm (a := a)]

/-- The second line reads on where the first stopped. -/
theorem bind_eq_ok_iff {x : Reader α} {f : α → Reader β} {b : β} :
    (x >>= f) bs = .ok (b, rest) ↔ ∃ a more, x bs = .ok (a, more) ∧ f a more = .ok (b, rest) := by
  show (x bs >>= fun p => f p.1 p.2) = .ok (b, rest) ↔ _
  cases x bs with
  | error cause => simp [bind, Except.bind]
  | ok p =>
    obtain ⟨a, more⟩ := p
    simp [bind, Except.bind]

/-- Nothing is read behind a refusal. -/
theorem throw_bind {cause : Error} {f : α → Reader β} :
    ((throw cause : Reader α) >>= f) = throw cause := rfl

/-- What is not refused is read on. -/
theorem ite_throw_eq_ok_iff {c : Prop} [Decidable c] {cause : Error} {x : Reader α} {a : α} :
    (if c then throw cause else x) bs = .ok (a, rest) ↔ ¬c ∧ x bs = .ok (a, rest) := by
  by_cases hRefused : c
  · rw [if_pos hRefused]
    exact ⟨nofun, fun h => absurd hRefused h.1⟩
  · rw [if_neg hRefused, and_iff_right hRefused]

-- ---------------------------------------------------------------------------
-- Bytes and words
-- ---------------------------------------------------------------------------

theorem bytes_eq_ok_iff {n : Nat} {value : Bytes} :
    bytes n bs = .ok (value, rest) ↔ value.length = n ∧ bs = value ++ rest := by
  rw [bytes, and_comm, ← Bytes.split?_eq_some_iff]
  cases Bytes.split? n bs with
  | none => simp
  | some cut => simp [Prod.ext_iff]

/-- What a reader undoes is what `encode` writes of the values that fit. -/
def Undoes (reader : Reader α) (encode : α → Bytes) (Fits : α → Prop) : Prop :=
  ∀ bs value rest, reader bs = .ok (value, rest) ↔ Fits value ∧ bs = encode value ++ rest

theorem fixed_undoes (n : Nat) : (fixed n).Undoes Subtype.val fun _ => True := by
  intro bs value rest
  rw [true_and, fixed]
  split
  · next front more hCut =>
    obtain ⟨rfl, hLength⟩ := Bytes.split?_eq_some_iff.1 hCut
    rw [Except.ok.injEq, Prod.mk.injEq, Subtype.ext_iff]
    constructor
    · rintro ⟨rfl, rfl⟩
      rfl
    · intro h
      exact List.append_inj h (hLength.trans value.property.symm)
  · next hCut =>
    have hShort := Bytes.split?_eq_none_iff.1 hCut
    refine ⟨nofun, ?_⟩
    rintro rfl
    rw [List.length_append, value.property] at hShort
    omega

theorem word_undoes (width : Nat) : (word width).Undoes (ofNatLE width) (· < 256 ^ width) := by
  intro bs n rest
  show (bytes width >>= fun value => pure (toNatLE value)) bs = .ok (n, rest) ↔ _
  simp only [bind_eq_ok_iff, bytes_eq_ok_iff, pure_eq_ok_iff]
  constructor
  · rintro ⟨value, more, ⟨rfl, rfl⟩, rfl, rfl⟩
    rw [Bytes.ofNatLE_toNatLE]
    exact ⟨Bytes.toNatLE_lt value, rfl⟩
  · rintro ⟨hFits, rfl⟩
    refine ⟨ofNatLE width n, rest, ⟨Bytes.length_ofNatLE width n, rfl⟩, ?_, rfl⟩
    rw [Bytes.toNatLE_ofNatLE, Nat.mod_eq_of_lt hFits]

-- ---------------------------------------------------------------------------
-- Several values
-- ---------------------------------------------------------------------------

/-- A reader of one value makes a reader of several in a row. -/
theorem Undoes.list {element : Reader α} {encode : α → Bytes} {Fits : α → Prop}
    (h : element.Undoes encode Fits) {n : Nat} {values : List α} :
    list element n bs = .ok (values, rest) ↔
      values.length = n ∧ (∀ value ∈ values, Fits value) ∧ bs = values.flatMap encode ++ rest := by
  induction n generalizing bs rest values with
  | zero =>
    rw [Reader.list, pure_eq_ok_iff, List.length_eq_zero_iff]
    constructor
    · rintro ⟨rfl, rfl⟩
      exact ⟨rfl, nofun, rfl⟩
    · rintro ⟨rfl, -, rfl⟩
      exact ⟨rfl, rfl⟩
  | succ n ih =>
    simp only [Reader.list, bind_eq_ok_iff, pure_eq_ok_iff, h _ _ _, ih]
    constructor
    · rintro ⟨first, _, ⟨hFirst, rfl⟩, others, _, ⟨rfl, hOthers, rfl⟩, rfl, rfl⟩
      refine ⟨rfl, List.forall_mem_cons.2 ⟨hFirst, hOthers⟩, ?_⟩
      rw [List.flatMap_cons, List.append_assoc]
    · rintro ⟨hLength, hFits, rfl⟩
      obtain ⟨first, others, rfl⟩ := List.exists_cons_of_length_eq_add_one hLength
      rw [List.forall_mem_cons] at hFits
      refine ⟨first, _, ⟨hFits.1, ?_⟩, others, rest, ⟨Nat.succ.inj hLength, hFits.2, rfl⟩, rfl, rfl⟩
      rw [List.flatMap_cons, List.append_assoc]

end Reader

-- ---------------------------------------------------------------------------
-- CompactSize
-- ---------------------------------------------------------------------------

namespace CompactSize

variable {n : Nat}

theorem encode_of_lt_fd (h : n < 0xfd) : encode n = ofNatLE 1 n := by
  rw [encode, if_pos h]

theorem encode_two (hLeast : 0xfd ≤ n) (h : n < 0x10000) : encode n = 0xfd :: ofNatLE 2 n := by
  rw [encode, if_neg (by omega), if_pos h]

theorem encode_four (hLeast : 0x10000 ≤ n) (h : n < 0x100000000) :
    encode n = 0xfe :: ofNatLE 4 n := by
  rw [encode, if_neg (by omega), if_neg (by omega), if_pos h]

theorem encode_eight (hLeast : 0x100000000 ≤ n) : encode n = 0xff :: ofNatLE 8 n := by
  rw [encode, if_neg (by omega), if_neg (by omega), if_neg (by omega)]

theorem atLeast_eq_ok_iff {least width : Nat} {bs rest : Bytes} :
    atLeast least width bs = .ok (n, rest) ↔
      (least ≤ n ∧ n < 256 ^ width) ∧ bs = ofNatLE width n ++ rest := by
  simp only [atLeast, Reader.bind_eq_ok_iff, Reader.word_undoes width _ _ _,
    Reader.ite_throw_eq_ok_iff, Reader.pure_eq_ok_iff, Nat.not_lt]
  constructor
  · rintro ⟨_, _, ⟨hFits, rfl⟩, hLeast, rfl, rfl⟩
    exact ⟨⟨hLeast, hFits⟩, rfl⟩
  · rintro ⟨⟨hLeast, hFits⟩, rfl⟩
    exact ⟨n, rest, ⟨hFits, rfl⟩, hLeast, rfl, rfl⟩

/-- **CompactSize has one form for each number below 2^64**, the shortest, and reads it. -/
theorem read_undoes : read.Undoes encode (· < 2 ^ 64) := by
  intro bs n rest
  rw [read, Reader.bind_eq_ok_iff]
  simp only [Reader.word_undoes 1 _ _ _]
  constructor
  · rintro ⟨first, more, ⟨hFirst, rfl⟩, h⟩
    split at h
    · next hSmall =>
      obtain ⟨rfl, rfl⟩ := Reader.pure_eq_ok_iff.1 h
      rw [encode_of_lt_fd hSmall]
      exact ⟨by omega, rfl⟩
    · split at h
      · next hMarker =>
        obtain ⟨⟨hLeast, hFits⟩, rfl⟩ := atLeast_eq_ok_iff.1 h
        rw [encode_two hLeast hFits, hMarker]
        exact ⟨by omega, rfl⟩
      · split at h
        · next hMarker =>
          obtain ⟨⟨hLeast, hFits⟩, rfl⟩ := atLeast_eq_ok_iff.1 h
          rw [encode_four hLeast hFits, hMarker]
          exact ⟨by omega, rfl⟩
        · obtain ⟨⟨hLeast, hFits⟩, rfl⟩ := atLeast_eq_ok_iff.1 h
          have hMarker : first = 0xff := by omega
          rw [encode_eight hLeast, hMarker]
          exact ⟨hFits, rfl⟩
  · rintro ⟨hFits, rfl⟩
    by_cases h1 : n < 0xfd
    · rw [encode_of_lt_fd h1]
      refine ⟨n, rest, ⟨by omega, rfl⟩, ?_⟩
      rw [if_pos h1]
      exact Reader.pure_eq_ok_iff.2 ⟨rfl, rfl⟩
    · by_cases h2 : n < 0x10000
      · rw [encode_two (by omega) h2]
        refine ⟨0xfd, ofNatLE 2 n ++ rest, ⟨by omega, rfl⟩, ?_⟩
        exact atLeast_eq_ok_iff.2 ⟨⟨by omega, h2⟩, rfl⟩
      · by_cases h4 : n < 0x100000000
        · rw [encode_four (by omega) h4]
          refine ⟨0xfe, ofNatLE 4 n ++ rest, ⟨by omega, rfl⟩, ?_⟩
          exact atLeast_eq_ok_iff.2 ⟨⟨by omega, h4⟩, rfl⟩
        · rw [encode_eight (by omega)]
          refine ⟨0xff, ofNatLE 8 n ++ rest, ⟨by omega, rfl⟩, ?_⟩
          exact atLeast_eq_ok_iff.2 ⟨⟨by omega, hFits⟩, rfl⟩

/-- The markers stand at the boundaries, and a longer form than needed is refused. -/
example :
    encode 0xfc = [0xfc] ∧ encode 0xfd = [0xfd, 0xfd, 0x00] ∧
      encode 0x10000 = [0xfe, 0x00, 0x00, 0x01, 0x00] ∧
      read [0xfd, 0xfc, 0x00] = .error .nonMinimal := by
  decide +kernel

end CompactSize

-- ---------------------------------------------------------------------------
-- Behind a length or a count
-- ---------------------------------------------------------------------------

/-- A byte string behind its length. -/
theorem readBytes_undoes : readBytes.Undoes encodeBytes (·.length < 2 ^ 64) := by
  intro bs value rest
  rw [readBytes, Reader.bind_eq_ok_iff]
  simp only [CompactSize.read_undoes _ _ _, Reader.bytes_eq_ok_iff]
  rw [encodeBytes, List.append_assoc]
  constructor
  · rintro ⟨size, more, ⟨hFits, rfl⟩, rfl, rfl⟩
    exact ⟨hFits, rfl⟩
  · rintro ⟨hFits, rfl⟩
    exact ⟨value.length, value ++ rest, ⟨hFits, rfl⟩, rfl, rfl⟩

/-- Values behind their count. -/
theorem readList_undoes {α : Type} {element : Reader α} {encode : α → Bytes} {Fits : α → Prop}
    (h : element.Undoes encode Fits) :
    (readList element).Undoes (encodeList encode)
      fun values => values.length < 2 ^ 64 ∧ ∀ value ∈ values, Fits value := by
  intro bs values rest
  rw [readList, Reader.bind_eq_ok_iff]
  simp only [CompactSize.read_undoes _ _ _, h.list]
  rw [encodeList, List.append_assoc]
  constructor
  · rintro ⟨count, more, ⟨hCount, rfl⟩, rfl, hFits, rfl⟩
    exact ⟨⟨hCount, hFits⟩, rfl⟩
  · rintro ⟨⟨hCount, hFits⟩, rfl⟩
    exact ⟨values.length, _, ⟨hCount, rfl⟩, rfl, hFits, rfl⟩

end Wire

end LegacyScript
