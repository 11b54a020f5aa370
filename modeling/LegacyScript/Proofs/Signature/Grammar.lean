import LegacyScript.Proofs.Der.Integer
import LegacyScript.Proofs.Signature.Matching

/-!
# The grammar of strict signatures

A strict signature is two numbers and a hash type, written with tags and sizes in one way
only (`Denotes`). `isCanonicalSignature` takes a byte string apart from the front. The
program does not: it looks bytes up by their index, and finds the second number with the
size that stands in front of the first, before it knows that there is a number at all.
`inspect` is that order of checks, where every index and every difference is checked.

None of these checks ever fails. Once the two sizes add up to the length of the byte string,
every field is where it is looked for, whatever the tags are (`Layout`). What is not laid
out like this is refused before anything is looked up behind the second size.

## Results

* `ofBytes?_eq_some_iff`          — a signature is taken apart just when it was put together.
* `inspect_eq`                    — the checks by index never fault, and give the verdict.
* `isCanonicalSignature_grammar`  — what is accepted is what the grammar yields.
-/

namespace LegacyScript.StrictSignature

-- ---------------------------------------------------------------------------
-- Checks by index
-- ---------------------------------------------------------------------------

/-- Whether the number of `size` bytes at `start` has its tag and is minimal. -/
def inspectInteger (sig : Bytes) (start size : Nat) : Option Bool := do
  let tag ← sig[← difference? start 2]?
  if tag ≠ 0x02 ∨ size = 0 then return false
  let first ← sig[start]?
  if first &&& 0x80 ≠ 0 then return false
  if 1 < size ∧ first = 0x00 then
    let second ← sig[start + 1]?
    return second &&& 0x80 ≠ 0
  return true

/-- Whether a signature is acceptable under the flags. There is no result where an index is
out of range or a difference is below zero. -/
def inspect (sig : Bytes) (flags : Flags) : Option Bool := do
  unless flags.contains Flags.strictEnc do return true
  unless 9 ≤ sig.length ∧ sig.length ≤ maxSize do return false
  let hashType ← sig[← difference? sig.length 1]?
  unless isDefinedHashType hashType do return false
  unless (← sig[0]?) = 0x30 do return false
  unless (← sig[1]?).toNat = (← difference? sig.length 3) do return false
  let sizeR := (← sig[3]?).toNat
  unless 5 + sizeR < sig.length do return false
  let sizeS := (← sig[5 + sizeR]?).toNat
  unless sizeR + sizeS + 7 = sig.length do return false
  unless ← inspectInteger sig 4 sizeR do return false
  unless ← inspectInteger sig (6 + sizeR) sizeS do return false
  if flags.contains Flags.evenS then
    let last ← sig[← difference? (6 + sizeR + sizeS) 1]?
    return last &&& 1 == 0
  return true

section Lookup

variable {bs front rest : Bytes} {b : UInt8} {i : Nat}

theorem getElem?_of_split (h : bs = front ++ b :: rest) (hIndex : i = front.length) :
    bs[i]? = some b := by
  rw [h, hIndex, List.getElem?_append_right (Nat.le_refl _), Nat.sub_self, List.getElem?_cons_zero]

theorem difference?_add (a b : Nat) : difference? (a + b) b = some a := by
  rw [difference?, if_pos (Nat.le_add_left b a), Nat.add_sub_cancel]

/-- A check in front of others. -/
theorem ite_eq_some_and {p : Prop} [Decidable p] {first others : Bool} {x : Option Bool}
    (hFirst : p ↔ first = true) (hOthers : p → x = some others) :
    (if p then x else pure false) = some (first && others) := by
  by_cases h : p
  · rw [if_pos h, hOthers h, hFirst.1 h, Bool.true_and]
  · rw [if_neg h, Bool.eq_false_of_not_eq_true (mt hFirst.2 h), Bool.false_and]
    rfl

theorem ite_eq_some_false {p : Prop} [Decidable p] {x : Option Bool} (h : p → x = some false) :
    (if p then x else pure false) = some false := by
  split
  · next hp => exact h hp
  · rfl

/-- A check that only one of the flags asks for. -/
theorem not_or_eq_true_iff {asked holds : Bool} :
    (!asked || holds) = true ↔ (asked = true → holds = true) := by
  cases asked with
  | true => simp
  | false => simp

/-- A number that is where it is looked for. -/
theorem inspectInteger_append (front : Bytes) (tag size : UInt8) (body rest : Bytes) :
    inspectInteger (front ++ tag :: size :: (body ++ rest)) (front.length + 2) body.length =
      some (decide (tag = 0x02) && isMinimal body) := by
  have hTag : (front ++ tag :: size :: (body ++ rest))[front.length]? = some tag :=
    getElem?_of_split rfl rfl
  simp only [inspectInteger, difference?_add, Option.bind_eq_bind, Option.bind_some, hTag]
  by_cases hIsTag : tag = 0x02
  swap
  · rw [if_pos (.inl hIsTag), decide_eq_false hIsTag]
    rfl
  rw [decide_eq_true hIsTag, Bool.true_and]
  cases body with
  | nil =>
    rw [if_pos (.inr rfl)]
    rfl
  | cons first tail =>
    have hSplit : front ++ tag :: size :: (first :: tail ++ rest) =
        (front ++ [tag, size]) ++ first :: (tail ++ rest) := by simp
    have hFirst := getElem?_of_split hSplit (i := front.length + 2) (by simp)
    rw [if_neg (by simp [hIsTag]), hFirst, Option.bind_some]
    by_cases hClear : first &&& 0x80 = 0
    swap
    · have hLarge : ¬ first < 0x80 := mt (lt_highBit_iff first).1 hClear
      rw [if_pos hClear]
      cases tail <;> simp [isMinimal, hLarge]
    have hSmall : first < 0x80 := (lt_highBit_iff first).2 hClear
    rw [if_neg (not_not_intro hClear)]
    cases tail with
    | nil => simp [isMinimal, hSmall]
    | cons second tail =>
      -- the second byte is looked up behind a zero only
      have hSplit' : front ++ tag :: size :: (first :: second :: tail ++ rest) =
          (front ++ [tag, size, first]) ++ second :: (tail ++ rest) := by simp
      have hSecond := getElem?_of_split hSplit' (i := front.length + 2 + 1) (by simp)
      by_cases hZero : first = 0x00
      · rw [if_pos ⟨by simp, hZero⟩, hSecond]
        simp [isMinimal, hZero, highBit_le_iff]
      · simp [isMinimal, hZero, hSmall]

end Lookup

-- ---------------------------------------------------------------------------
-- Byte strings of the right lengths
-- ---------------------------------------------------------------------------

/-- The fields of a byte string whose two sizes add up to its length. The tags and the total
length may be wrong. -/
structure Layout where
  marker : UInt8
  total : UInt8
  tagR : UInt8
  r : Bytes
  tagS : UInt8
  s : Bytes
  hashType : UInt8
  length_r_lt : r.length < 256
  length_s_lt : s.length < 256

namespace Layout

variable (l : Layout)

/-- The fields one after the other, each number behind its tag and its size. -/
def bytes : Bytes :=
  l.marker :: l.total :: l.tagR :: UInt8.ofNat l.r.length ::
    (l.r ++ l.tagS :: UInt8.ofNat l.s.length :: (l.s ++ [l.hashType]))

theorem length_bytes : l.bytes.length = l.r.length + l.s.length + 7 := by
  simp only [bytes, List.length_cons, List.length_append, List.length_nil]
  omega

theorem toNat_size_r : (UInt8.ofNat l.r.length).toNat = l.r.length :=
  UInt8.toNat_ofNat_of_lt' l.length_r_lt

theorem toNat_size_s : (UInt8.ofNat l.s.length).toNat = l.s.length :=
  UInt8.toNat_ofNat_of_lt' l.length_s_lt

/-- Whether tags, total length and hash type are right and both numbers minimal. -/
def isStrict : Bool :=
  isDefinedHashType l.hashType && decide (l.marker = 0x30) &&
    decide (l.total.toNat = l.r.length + l.s.length + 4) &&
    (decide (l.tagR = 0x02) && isMinimal l.r) && (decide (l.tagS = 0x02) && isMinimal l.s)

theorem inspectInteger_r :
    inspectInteger l.bytes 4 l.r.length = some (decide (l.tagR = 0x02) && isMinimal l.r) :=
  inspectInteger_append [l.marker, l.total] l.tagR _ l.r _

theorem inspectInteger_s :
    inspectInteger l.bytes (6 + l.r.length) l.s.length =
      some (decide (l.tagS = 0x02) && isMinimal l.s) := by
  have hNumber := inspectInteger_append
    (l.marker :: l.total :: l.tagR :: UInt8.ofNat l.r.length :: l.r) l.tagS
    (UInt8.ofNat l.s.length) l.s [l.hashType]
  rw [Nat.add_comm 6]
  exact hNumber

/-- The byte in front of the hash type is the last one of the second number, if that has
any. -/
theorem getElem?_bytes_of_minimal (h : isMinimal l.s = true) :
    ∃ last, l.bytes[5 + l.r.length + l.s.length]? = some last ∧ isEven l.s = (last &&& 1 == 0) := by
  rcases List.eq_nil_or_concat l.s with hNil | ⟨front, last, hLast⟩
  · rw [hNil] at h
    cases h
  · rw [List.concat_eq_append] at hLast
    have hSplit : l.bytes = (l.marker :: l.total :: l.tagR :: UInt8.ofNat l.r.length ::
        (l.r ++ l.tagS :: UInt8.ofNat l.s.length :: front)) ++ last :: [l.hashType] := by
      rw [bytes, hLast]
      simp
    refine ⟨last, getElem?_of_split hSplit ?_, ?_⟩
    · simp only [hLast, List.length_cons, List.length_append, List.length_nil]
      omega
    · rw [isEven, hLast, List.getLast?_concat]

theorem getElem?_bytes_size_s :
    l.bytes[5 + l.r.length]? = some (UInt8.ofNat l.s.length) := by
  have hSplit : l.bytes = (l.marker :: l.total :: l.tagR :: UInt8.ofNat l.r.length ::
      (l.r ++ [l.tagS])) ++ UInt8.ofNat l.s.length :: (l.s ++ [l.hashType]) := by
    simp [bytes]
  refine getElem?_of_split hSplit ?_
  simp only [List.length_cons, List.length_append, List.length_nil]
  omega

theorem getElem?_bytes_hashType :
    l.bytes[l.r.length + l.s.length + 6]? = some l.hashType := by
  have hSplit : l.bytes = (l.marker :: l.total :: l.tagR :: UInt8.ofNat l.r.length ::
      (l.r ++ l.tagS :: UInt8.ofNat l.s.length :: l.s)) ++ l.hashType :: [] := by
    simp [bytes]
  refine getElem?_of_split hSplit ?_
  simp only [List.length_cons, List.length_append]
  omega

/-- **Where the fields are laid out by the sizes, the checks by index find them.** -/
theorem inspect_bytes {flags : Flags} (h : flags.contains Flags.strictEnc = true) :
    inspect l.bytes flags =
      some (decide (9 ≤ l.bytes.length ∧ l.bytes.length ≤ maxSize) &&
        (l.isStrict && (!flags.contains Flags.evenS || isEven l.s))) := by
  have hMarker : l.bytes[0]? = some l.marker := rfl
  have hTotal : l.bytes[1]? = some l.total := rfl
  have hSizeR : l.bytes[3]? = some (UInt8.ofNat l.r.length) := rfl
  have hLast : difference? l.bytes.length 1 = some (l.r.length + l.s.length + 6) := by
    rw [length_bytes]
    exact difference?_add _ 1
  have hRest : difference? l.bytes.length 3 = some (l.r.length + l.s.length + 4) := by
    rw [length_bytes]
    exact difference?_add _ 3
  have hRoom : 5 + l.r.length < l.bytes.length := by
    rw [length_bytes]
    omega
  simp only [inspect, h, if_true, Option.bind_eq_bind, Option.bind_some, hLast,
    getElem?_bytes_hashType, hMarker, hTotal, hRest, hSizeR, toNat_size_r, hRoom,
    getElem?_bytes_size_s, toNat_size_s, l.length_bytes.symm, inspectInteger_r, inspectInteger_s]
  -- what is left are the checks one after the other
  rw [isStrict, Bool.and_assoc, Bool.and_assoc, Bool.and_assoc, Bool.and_assoc]
  refine ite_eq_some_and decide_eq_true_iff.symm fun _ => ?_
  refine ite_eq_some_and Iff.rfl fun _ => ?_
  refine ite_eq_some_and decide_eq_true_iff.symm fun _ => ?_
  refine ite_eq_some_and decide_eq_true_iff.symm fun _ => ?_
  refine ite_eq_some_and Iff.rfl fun _ => ?_
  refine ite_eq_some_and Iff.rfl fun hNumberS => ?_
  cases flags.contains Flags.evenS with
  | false => rfl
  | true =>
    rw [Bool.and_eq_true] at hNumberS
    obtain ⟨last, hLookup, hEven⟩ := l.getElem?_bytes_of_minimal hNumberS.2
    have hIndex : difference? (6 + l.r.length + l.s.length) 1 =
        some (5 + l.r.length + l.s.length) := by
      rw [show 6 + l.r.length + l.s.length = 5 + l.r.length + l.s.length + 1 by omega]
      exact difference?_add _ 1
    rw [if_pos rfl, hIndex, Option.bind_some, hLookup, hEven]
    rfl

theorem bytes_injective : Function.Injective bytes := by
  rintro ⟨marker, total, tagR, r, tagS, s, hashType, hR, hS⟩
    ⟨marker', total', tagR', r', tagS', s', hashType', hR', hS'⟩ hEq
  simp only [bytes, List.cons.injEq] at hEq
  obtain ⟨rfl, rfl, rfl, hSizeR, hRest⟩ := hEq
  have hLengthR : r.length = r'.length := by
    rw [← UInt8.toNat_ofNat_of_lt' hR, hSizeR, UInt8.toNat_ofNat_of_lt' hR']
  obtain ⟨rfl, hBehind⟩ := List.append_inj hRest hLengthR
  simp only [List.cons.injEq] at hBehind
  obtain ⟨rfl, -, hNumberS⟩ := hBehind
  obtain ⟨rfl, hHashType⟩ := List.append_inj' hNumberS rfl
  rw [List.singleton_inj] at hHashType
  rw [hHashType]

end Layout

/-- Two sizes that add up to the length lay out all fields. -/
theorem exists_layout {sig : Bytes} {sizeR sizeS : UInt8} (hR : sig[3]? = some sizeR)
    (hS : sig[5 + sizeR.toNat]? = some sizeS)
    (hLength : sizeR.toNat + sizeS.toNat + 7 = sig.length) :
    ∃ l : Layout, l.bytes = sig := by
  match sig with
  | marker :: total :: tagR :: size :: bs =>
    obtain rfl : size = sizeR := Option.some.inj hR
    simp only [List.length_cons] at hLength
    obtain ⟨r, bs, rfl, hLengthR⟩ : ∃ front rest, bs = front ++ rest ∧ front.length = size.toNat :=
      ⟨bs.take size.toNat, bs.drop size.toNat, (List.take_append_drop _ _).symm, by simp; omega⟩
    rw [List.length_append, hLengthR] at hLength
    match bs with
    | tagS :: size' :: bs =>
      have hSplit : marker :: total :: tagR :: size :: (r ++ tagS :: size' :: bs) =
          (marker :: total :: tagR :: size :: (r ++ [tagS])) ++ size' :: bs := by simp
      have hFound := getElem?_of_split hSplit (i := 5 + size.toNat) (by simp; omega)
      obtain rfl : size' = sizeS := Option.some.inj (hFound.symm.trans hS)
      simp only [List.length_cons] at hLength
      rcases List.eq_nil_or_concat bs with rfl | ⟨s, hashType, rfl⟩
      · simp only [List.length_nil] at hLength
        omega
      · simp only [List.concat_eq_append, List.length_append, List.length_cons,
          List.length_nil] at hLength
        have hLengthS : s.length = size'.toNat := by omega
        refine ⟨⟨marker, total, tagR, r, tagS, s, hashType, hLengthR ▸ size.toNat_lt,
          hLengthS ▸ size'.toNat_lt⟩, ?_⟩
        simp [Layout.bytes, hLengthR, hLengthS]
    | [_] =>
      simp only [List.length_cons, List.length_nil] at hLength
      omega
    | [] =>
      simp only [List.length_nil] at hLength
      omega

/-- **Where no fields are laid out, the checks by index come to an end before they leave the
byte string.** -/
theorem inspect_of_forall_ne {sig : Bytes} {flags : Flags}
    (h : flags.contains Flags.strictEnc = true) (hNone : ∀ l : Layout, l.bytes ≠ sig) :
    inspect sig flags = some false := by
  unfold inspect
  rw [if_pos h]
  refine ite_eq_some_false fun hLength => ?_
  have hLookup (i : Nat) (hi : i < sig.length) : sig[i]? = some sig[i] :=
    List.getElem?_eq_getElem hi
  have hDifference (a : Nat) (ha : a < 9) : difference? sig.length a = some (sig.length - a) :=
    if_pos (by omega)
  simp only [Option.bind_eq_bind, hDifference 1 (by decide), hDifference 3 (by decide),
    hLookup 0 (by omega), hLookup 1 (by omega), hLookup 3 (by omega),
    hLookup (sig.length - 1) (by omega), Option.bind_some]
  refine ite_eq_some_false fun _ => ?_
  refine ite_eq_some_false fun _ => ?_
  refine ite_eq_some_false fun _ => ?_
  refine ite_eq_some_false fun hRoom => ?_
  rw [hLookup _ hRoom, Option.bind_some]
  refine ite_eq_some_false fun hSizes => ?_
  obtain ⟨l, hBytes⟩ := exists_layout (hLookup 3 (by omega)) (hLookup _ hRoom) hSizes
  exact absurd hBytes (hNone l)

-- ---------------------------------------------------------------------------
-- Taking a signature apart
-- ---------------------------------------------------------------------------

/-- **A signature is taken apart just when it was put together.** -/
theorem ofBytes?_eq_some_iff {sig : Bytes} {parts : StrictSignature} :
    ofBytes? sig = some parts ↔
      sig = parts.encode ∧ parts.r.length + parts.s.length + 4 < 256 := by
  have hByte {b : UInt8} {n : Nat} (h : b.toNat = n) : b = UInt8.ofNat n := by
    rw [← h, UInt8.ofNat_toNat]
  constructor
  · intro h
    unfold ofBytes? at h
    split at h
    · next total sizeR bs =>
      obtain ⟨⟨r, rest⟩, hSplitR, hBehindR⟩ := Option.bind_eq_some_iff.1 h
      obtain ⟨rfl, hLengthR⟩ := Bytes.split?_eq_some_iff.1 hSplitR
      dsimp only at hBehindR
      split at hBehindR
      · next sizeS bs =>
        obtain ⟨⟨s, rest⟩, hSplitS, hBehindS⟩ := Option.bind_eq_some_iff.1 hBehindR
        obtain ⟨rfl, hLengthS⟩ := Bytes.split?_eq_some_iff.1 hSplitS
        dsimp only at hBehindS
        split at hBehindS
        · next hashType =>
          rw [Option.ite_none_right_eq_some] at hBehindS
          obtain ⟨hTotal, hParts⟩ := hBehindS
          obtain rfl := Option.some.inj hParts
          refine ⟨?_, hTotal ▸ total.toNat_lt⟩
          rw [encode, hByte hTotal, hByte hLengthR.symm, hByte hLengthS.symm]
          simp
        · cases hBehindS
      · cases hBehindR
    · cases h
  · rintro ⟨rfl, hSize⟩
    have hSizeR : (UInt8.ofNat parts.r.length).toNat = parts.r.length :=
      UInt8.toNat_ofNat_of_lt' (show _ < 256 by omega)
    have hSizeS : (UInt8.ofNat parts.s.length).toNat = parts.s.length :=
      UInt8.toNat_ofNat_of_lt' (show _ < 256 by omega)
    have hTotal : (UInt8.ofNat (parts.r.length + parts.s.length + 4)).toNat =
        parts.r.length + parts.s.length + 4 := UInt8.toNat_ofNat_of_lt' hSize
    have hCut (size : UInt8) (front rest : Bytes) (h : size.toNat = front.length) :
        Bytes.split? size.toNat (front ++ rest) = some (front, rest) :=
      Bytes.split?_eq_some_iff.2 ⟨rfl, h.symm⟩
    simp only [encode, ofBytes?, List.cons_append, List.append_assoc, Option.bind_eq_bind,
      hCut _ _ _ hSizeR, hCut _ _ _ hSizeS, Option.bind_some, hTotal, if_true]

theorem encode_injective_of_lt {p q : StrictSignature} (hp : p.r.length + p.s.length + 4 < 256)
    (hq : q.r.length + q.s.length + 4 < 256) (h : p.encode = q.encode) : p = q := by
  have hTaken : ofBytes? p.encode = some p := ofBytes?_eq_some_iff.2 ⟨rfl, hp⟩
  rw [ofBytes?_eq_some_iff.2 ⟨h, hq⟩] at hTaken
  exact (Option.some.inj hTaken).symm

theorem length_encode (parts : StrictSignature) :
    parts.encode.length = parts.r.length + parts.s.length + 7 := by
  simp only [encode, List.length_cons, List.length_append, List.length_nil]
  omega

theorem isCanonicalSignature_of_not_contains {flags : Flags} (sig : Bytes)
    (h : flags.contains Flags.strictEnc = false) : isCanonicalSignature sig flags = true := by
  rw [isCanonicalSignature, h]
  rfl

/-- What is accepted is put together of good parts. -/
theorem isCanonicalSignature_iff {sig : Bytes} {flags : Flags}
    (h : flags.contains Flags.strictEnc = true) :
    isCanonicalSignature sig flags = true ↔
      ∃ parts : StrictSignature, sig = parts.encode ∧ sig.length ≤ maxSize ∧
        isDefinedHashType parts.hashType = true ∧ isMinimal parts.r = true ∧
        isMinimal parts.s = true ∧ (flags.contains Flags.evenS = true → isEven parts.s = true) := by
  rw [isCanonicalSignature, h, if_neg (by decide)]
  by_cases hLong : maxSize < sig.length
  · rw [if_pos hLong]
    constructor
    · nofun
    · rintro ⟨_, -, hLength, -⟩
      exact absurd hLength (Nat.not_le.2 hLong)
  rw [if_neg hLong]
  constructor
  · intro hAccepted
    cases hParts : ofBytes? sig with
    | none =>
      rw [hParts] at hAccepted
      cases hAccepted
    | some parts =>
      simp only [hParts, Bool.and_eq_true, not_or_eq_true_iff] at hAccepted
      obtain ⟨⟨⟨hHashType, hR⟩, hS⟩, hEven⟩ := hAccepted
      exact ⟨parts, (ofBytes?_eq_some_iff.1 hParts).1, Nat.not_lt.1 hLong, hHashType, hR, hS,
        hEven⟩
  · rintro ⟨parts, rfl, hLength, hHashType, hR, hS, hEven⟩
    have hParts : ofBytes? parts.encode = some parts := by
      rw [length_encode, maxSize] at hLength
      exact ofBytes?_eq_some_iff.2 ⟨rfl, by omega⟩
    simp only [hParts, hHashType, hR, hS, Bool.true_and]
    exact not_or_eq_true_iff.2 hEven

/-- The fields of a signature that is put together. -/
def layout (parts : StrictSignature) (h : parts.encode.length ≤ maxSize) : Layout where
  marker := 0x30
  total := UInt8.ofNat (parts.r.length + parts.s.length + 4)
  tagR := 0x02
  r := parts.r
  tagS := 0x02
  s := parts.s
  hashType := parts.hashType
  length_r_lt := by rw [length_encode, maxSize] at h; omega
  length_s_lt := by rw [length_encode, maxSize] at h; omega

theorem bytes_layout (parts : StrictSignature) (h : parts.encode.length ≤ maxSize) :
    (parts.layout h).bytes = parts.encode := by
  simp [layout, Layout.bytes, encode]

theorem length_pos_of_isMinimal {bs : Bytes} (h : isMinimal bs = true) : 0 < bs.length :=
  List.length_pos_of_ne_nil ((isMinimal_iff bs).1 h).ne_nil

theorem Layout.isCanonicalSignature_bytes (l : Layout) {flags : Flags}
    (h : flags.contains Flags.strictEnc = true) :
    isCanonicalSignature l.bytes flags =
      (decide (9 ≤ l.bytes.length ∧ l.bytes.length ≤ maxSize) &&
        (l.isStrict && (!flags.contains Flags.evenS || isEven l.s))) := by
  rw [Bool.eq_iff_iff, isCanonicalSignature_iff h]
  simp only [isStrict, Bool.and_eq_true, decide_eq_true_iff, not_or_eq_true_iff]
  constructor
  · rintro ⟨parts, hBytes, hLength, hHashType, hR, hS, hEven⟩
    rw [hBytes] at hLength
    obtain rfl : l = parts.layout hLength :=
      Layout.bytes_injective (hBytes.trans (parts.bytes_layout hLength).symm)
    have hSize := parts.length_encode
    have hPosR := length_pos_of_isMinimal hR
    have hPosS := length_pos_of_isMinimal hS
    have hTotal : (UInt8.ofNat (parts.r.length + parts.s.length + 4)).toNat =
        parts.r.length + parts.s.length + 4 :=
      UInt8.toNat_ofNat_of_lt' (show _ < 256 by rw [maxSize] at hLength; omega)
    rw [bytes_layout]
    exact ⟨⟨by omega, hLength⟩, ⟨⟨⟨⟨hHashType, rfl⟩, hTotal⟩, rfl, hR⟩, rfl, hS⟩, hEven⟩
  · rintro ⟨⟨-, hLength⟩, ⟨⟨⟨⟨hHashType, hMarker⟩, hTotal⟩, hTagR, hR⟩, hTagS, hS⟩, hEven⟩
    refine ⟨⟨l.r, l.s, l.hashType⟩, ?_, hLength, hHashType, hR, hS, hEven⟩
    rw [bytes, encode, hMarker, hTagR, hTagS, ← hTotal, UInt8.ofNat_toNat]
    simp

/-- **The checks by index never fault, and they give the verdict.** -/
theorem inspect_eq (sig : Bytes) (flags : Flags) :
    inspect sig flags = some (isCanonicalSignature sig flags) := by
  cases hFlag : flags.contains Flags.strictEnc with
  | false =>
    rw [isCanonicalSignature_of_not_contains sig hFlag, inspect, hFlag]
    rfl
  | true =>
    by_cases hLayout : ∃ l : Layout, l.bytes = sig
    · obtain ⟨l, rfl⟩ := hLayout
      rw [l.inspect_bytes hFlag, l.isCanonicalSignature_bytes hFlag]
    · rw [not_exists] at hLayout
      rw [inspect_of_forall_ne hFlag hLayout, eq_comm, Option.some.injEq, ← Bool.not_eq_true,
        isCanonicalSignature_iff hFlag]
      rintro ⟨parts, rfl, hLength, -⟩
      exact hLayout _ (parts.bytes_layout hLength)

-- ---------------------------------------------------------------------------
-- The grammar
-- ---------------------------------------------------------------------------

/-- A byte string is the signature of two numbers and a hash type, with these spellings of
the numbers. -/
structure Denotes (flags : Flags) (sig : Bytes) (r s : Nat) (hashType : UInt8)
    (rBytes sBytes : Bytes) : Prop where
  spells_r : Der.Spells rBytes r
  spells_s : Der.Spells sBytes s
  hashType_defined : hashType &&& 0x7f = 1 ∨ hashType &&& 0x7f = 2 ∨ hashType &&& 0x7f = 3
  sig_eq : sig =
    [0x30, UInt8.ofNat (rBytes.length + sBytes.length + 4), 0x02, UInt8.ofNat rBytes.length]
      ++ rBytes ++ [0x02, UInt8.ofNat sBytes.length] ++ sBytes ++ [hashType]
  length_le : sig.length ≤ 73
  even_s : flags.contains Flags.evenS = true → Even s

section Denoting

variable {flags : Flags} {sig rBytes sBytes rBytes' sBytes' : Bytes} {r s r' s' : Nat}
  {hashType hashType' : UInt8}

theorem isDefinedHashType_iff (hashType : UInt8) :
    isDefinedHashType hashType = true ↔
      hashType &&& 0x7f = 1 ∨ hashType &&& 0x7f = 2 ∨ hashType &&& 0x7f = 3 :=
  Number.byteCases hashType (by decide)

theorem Denotes.eq_encode (h : Denotes flags sig r s hashType rBytes sBytes) :
    sig = encode ⟨rBytes, sBytes, hashType⟩ := by
  rw [h.sig_eq, encode]
  simp

theorem exists_denotes_iff (h : flags.contains Flags.strictEnc = true) :
    isCanonicalSignature sig flags = true ↔
      ∃ r s hashType rBytes sBytes, Denotes flags sig r s hashType rBytes sBytes := by
  rw [isCanonicalSignature_iff h]
  constructor
  · rintro ⟨⟨rBytes, sBytes, hashType⟩, hSig, hLength, hHashType, hR, hS, hEven⟩
    refine ⟨_, _, hashType, rBytes, sBytes, (isMinimal_iff rBytes).1 hR,
      (isMinimal_iff sBytes).1 hS, (isDefinedHashType_iff hashType).1 hHashType, ?_, hLength, ?_⟩
    · rw [hSig, encode]
      simp
    · intro hFlag
      exact (isEven_iff sBytes).1 (hEven hFlag)
  · rintro ⟨r, s, hashType, rBytes, sBytes, hDenotes⟩
    obtain ⟨hSpellsR, hSpellsS, hHashType, -, hLength, hEven⟩ := id hDenotes
    obtain rfl := hSpellsR.toNatBE_eq
    obtain rfl := hSpellsS.toNatBE_eq
    exact ⟨_, hDenotes.eq_encode, hLength, (isDefinedHashType_iff hashType).2 hHashType,
      (isMinimal_iff rBytes).2 hSpellsR, (isMinimal_iff sBytes).2 hSpellsS,
      fun hFlag => (isEven_iff sBytes).2 (hEven hFlag)⟩

/-- A signature is of one pair of numbers and one hash type, in one way. -/
theorem Denotes.unique (h : Denotes flags sig r s hashType rBytes sBytes)
    (h' : Denotes flags sig r' s' hashType' rBytes' sBytes') :
    r = r' ∧ s = s' ∧ hashType = hashType' ∧ rBytes = rBytes' ∧ sBytes = sBytes' := by
  have hSize := congrArg List.length h.eq_encode
  have hSize' := congrArg List.length h'.eq_encode
  rw [length_encode] at hSize hSize'
  have hLength := h.length_le
  have hParts : (⟨rBytes, sBytes, hashType⟩ : StrictSignature) = ⟨rBytes', sBytes', hashType'⟩ :=
    encode_injective_of_lt (by omega) (by omega) (h.eq_encode.symm.trans h'.eq_encode)
  obtain ⟨rfl, rfl, rfl⟩ := StrictSignature.mk.inj hParts
  exact ⟨h.spells_r.toNatBE_eq.symm.trans h'.spells_r.toNatBE_eq,
    h.spells_s.toNatBE_eq.symm.trans h'.spells_s.toNatBE_eq, rfl, rfl, rfl⟩

end Denoting

/-- **The check of a signature is its grammar.** It never looks up a byte that is not there
and never takes a difference below zero. Without the flag for strict encodings it accepts
everything. With the flag it accepts just the signatures of two numbers and a defined hash
type, each number in its one spelling, of which there are no two for one byte string. -/
theorem isCanonicalSignature_grammar (sig : Bytes) (flags : Flags) :
    inspect sig flags = some (isCanonicalSignature sig flags) ∧
    (flags.contains Flags.strictEnc = false → isCanonicalSignature sig flags = true) ∧
    (flags.contains Flags.strictEnc = true →
      (isCanonicalSignature sig flags = true ↔
        ∃ r s hashType rBytes sBytes, Denotes flags sig r s hashType rBytes sBytes)) ∧
    (∀ r s hashType rBytes sBytes r' s' hashType' rBytes' sBytes',
      Denotes flags sig r s hashType rBytes sBytes →
      Denotes flags sig r' s' hashType' rBytes' sBytes' →
      r = r' ∧ s = s' ∧ hashType = hashType' ∧ rBytes = rBytes' ∧ sBytes = sBytes') ∧
    ∀ n, ∃! bs, Der.Spells bs n := by
  refine ⟨inspect_eq sig flags, isCanonicalSignature_of_not_contains sig, exists_denotes_iff, ?_,
    fun n => ⟨Der.ofNat n, Der.spells_iff.2 rfl, fun _ => Der.spells_iff.1⟩⟩
  intro r s hashType rBytes sBytes r' s' hashType' rBytes' sBytes' h h'
  exact h.unique h'

/-- The first number needs a zero in front, and the hash type lets anyone add inputs. -/
theorem isCanonicalSignature_grammar_highBit :
    let flags : Flags := ⟨Flags.strictEnc ||| Flags.evenS, by decide⟩
    let sig : Bytes := [0x30, 0x07, 0x02, 0x02, 0x00, 0x80, 0x02, 0x01, 0x02, 0x81]
    flags.contains Flags.strictEnc = true ∧
      Denotes flags sig 128 2 0x81 [0x00, 0x80] [0x02] ∧
      inspect sig flags = some true ∧
      (∀ r s hashType rBytes sBytes, Denotes flags sig r s hashType rBytes sBytes →
        r = 128 ∧ s = 2) ∧
      isCanonicalSignature sig Flags.none = true := by
  intro flags sig
  obtain ⟨hInspect, -, hGrammar, hUnique, -⟩ := isCanonicalSignature_grammar sig flags
  obtain ⟨-, hAlways, -⟩ := isCanonicalSignature_grammar sig Flags.none
  have hFlag : flags.contains Flags.strictEnc = true := by decide
  have hR : Der.Spells [0x00, 0x80] 128 := (isMinimal_iff _).1 (by decide)
  have hS : Der.Spells [0x02] 2 := (isMinimal_iff _).1 (by decide)
  have hDenotes : Denotes flags sig 128 2 0x81 [0x00, 0x80] [0x02] :=
    ⟨hR, hS, .inl (by decide), rfl, by decide, fun _ => by decide⟩
  have hAccepted := (hGrammar hFlag).2 ⟨_, _, _, _, _, hDenotes⟩
  refine ⟨hFlag, hDenotes, ?_, ?_, hAlways (by decide)⟩
  · rw [hInspect, hAccepted]
  · intro r s hashType rBytes sBytes hOther
    obtain ⟨hSameR, hSameS, -⟩ := hUnique _ _ _ _ _ _ _ _ _ _ hOther hDenotes
    exact ⟨hSameR, hSameS⟩

end LegacyScript.StrictSignature
