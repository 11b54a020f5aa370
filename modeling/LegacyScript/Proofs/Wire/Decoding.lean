import LegacyScript.Proofs.Wire.Reader
import LegacyScript.Script.Instruction

/-!
# Three ways to decode

A value can be read off the front of a byte string, from a byte string that holds nothing
else, or from a stream. Where the reader undoes a writer, all three accept the bytes that are
written of a value that fits, and differ only in what they want of the bytes around:

* in part, these bytes stand at the front;
* as a whole, there are no others;
* from a stream, they stand at the front and are within its limit.

So no way has to be looked at for its own, and the three agree on all inputs. A script is
written as a byte string behind its length.

## Results

* `Undoes.decodePartial_eq_ok_iff`, `Undoes.decodeWhole_eq_ok_iff`,
  `Undoes.decodeStream_eq_ok_iff` — what each way accepts.
* `Undoes.eq_of_prefix` — what is written of one value is not the front of another's.
* `script_decoding`     — the three ways for scripts.
-/

namespace LegacyScript.Wire

namespace Reader.Undoes

variable {α : Type} {reader : Reader α} {encode : α → Bytes} {Fits : α → Prop} {bs : Bytes}
  {value other : α}

/-- What is written of a value is read, up to what follows it. -/
theorem read_append (h : reader.Undoes encode Fits) (hFits : Fits value) (rest : Bytes) :
    reader (encode value ++ rest) = .ok (value, rest) :=
  (h _ _ _).2 ⟨hFits, rfl⟩

/-- **In part**, the bytes of the value stand at the front, and are those that are counted. -/
theorem decodePartial_eq_ok_iff (h : reader.Undoes encode Fits) {n : Nat} :
    decodePartial reader bs = .ok (value, n) ↔
      Fits value ∧ n = (encode value).length ∧ encode value <+: bs := by
  unfold decodePartial
  constructor
  · intro hDecode
    split at hDecode
    · next read rest hRead =>
      rw [Except.ok.injEq, Prod.mk.injEq] at hDecode
      obtain ⟨rfl, rfl⟩ := hDecode
      obtain ⟨hFits, rfl⟩ := (h _ _ _).1 hRead
      refine ⟨hFits, ?_, List.prefix_append _ _⟩
      rw [List.length_append]
      omega
    · cases hDecode
  · rintro ⟨hFits, rfl, rest, rfl⟩
    rw [h.read_append hFits]
    dsimp only
    rw [List.length_append, Nat.add_sub_cancel]

/-- **As a whole**, there are no bytes but those of the value. -/
theorem decodeWhole_eq_ok_iff (h : reader.Undoes encode Fits) :
    decodeWhole reader bs = .ok value ↔ Fits value ∧ bs = encode value := by
  have hEnd : reader bs = .ok (value, []) ↔ Fits value ∧ bs = encode value := by
    rw [h, List.append_nil]
  rw [← hEnd]
  unfold decodeWhole
  constructor
  · intro hDecode
    split at hDecode
    · next read hRead =>
      obtain rfl := Except.ok.inj hDecode
      exact hRead
    · cases hDecode
    · cases hDecode
  · intro hRead
    rw [hRead]

/-- **From a stream**, the bytes of the value stand at the front, within its limit. -/
theorem decodeStream_eq_ok_iff (h : reader.Undoes encode Fits) :
    decodeStream reader bs = .ok value ↔
      Fits value ∧ (encode value).length ≤ streamLimit ∧ encode value <+: bs := by
  unfold decodeStream
  constructor
  · intro hDecode
    split at hDecode
    · next read rest hRead =>
      obtain rfl := Except.ok.inj hDecode
      obtain ⟨hFits, hTake⟩ := (h _ _ _).1 hRead
      have hFront : encode read <+: bs.take streamLimit := ⟨rest, hTake.symm⟩
      have hLength := hFront.length_le
      rw [List.length_take] at hLength
      exact ⟨hFits, by omega, hFront.trans (List.take_prefix _ _)⟩
    · cases hDecode
  · rintro ⟨hFits, hLimit, rest, rfl⟩
    -- the limit cuts off nothing of the value
    rw [List.take_append, List.take_of_length_le hLimit, h.read_append hFits]

/-- **What is written of one value is not the front of what is written of another.** -/
theorem eq_of_prefix (h : reader.Undoes encode Fits) (hValue : Fits value) (hOther : Fits other)
    (hPrefix : encode value <+: encode other) : value = other := by
  obtain ⟨rest, hRest⟩ := hPrefix
  have hLong : reader (encode other) = .ok (value, rest) := by
    rw [← hRest]
    exact h.read_append hValue rest
  have hAll : reader (encode other) = .ok (other, []) := by
    rw [← List.append_nil (encode other)]
    exact h.read_append hOther []
  rw [hLong, Except.ok.injEq, Prod.mk.injEq] at hAll
  exact hAll.1

end Reader.Undoes

-- ---------------------------------------------------------------------------
-- Scripts
-- ---------------------------------------------------------------------------

/-- **Scripts on the wire.** What is written of a script is decoded in part, whatever follows
it, and decoded as a whole just when nothing does; a length that can be written is one below
2^64. Conversely, the bytes that are counted when a script is decoded in part are those written
of it; to decode as a whole is to decode in part and have all bytes counted; and to decode from
a stream is to decode in part and have no more bytes counted than the stream gives. -/
theorem script_decoding :
    (∀ script rest : Bytes, script.length < 2 ^ 64 →
      decodePartial readBytes (encodeBytes script ++ rest) =
          .ok (script, (encodeBytes script).length) ∧
        ∀ read, decodeWhole readBytes (encodeBytes script ++ rest) = .ok read ↔
          rest = [] ∧ read = script) ∧
    ∀ (bs : Bytes) (script : Script),
      (∀ n, decodePartial readBytes bs = .ok (script, n) →
        n ≤ bs.length ∧ bs.take n = encodeBytes script) ∧
      (decodeWhole readBytes bs = .ok script ↔
        decodePartial readBytes bs = .ok (script, bs.length)) ∧
      (decodeStream readBytes bs = .ok script ↔
        ∃ n ≤ 4000000, decodePartial readBytes bs = .ok (script, n)) := by
  constructor
  · intro script rest hFits
    have hPartial : decodePartial readBytes (encodeBytes script ++ rest) =
        .ok (script, (encodeBytes script).length) :=
      readBytes_undoes.decodePartial_eq_ok_iff.2 ⟨hFits, rfl, List.prefix_append _ _⟩
    refine ⟨hPartial, fun read => ?_⟩
    rw [readBytes_undoes.decodeWhole_eq_ok_iff]
    constructor
    · rintro ⟨hRead, hBytes⟩
      have hPrefix : encodeBytes script <+: encodeBytes read := ⟨rest, hBytes⟩
      obtain rfl := readBytes_undoes.eq_of_prefix hFits hRead hPrefix
      exact ⟨List.append_right_eq_self.1 hBytes, rfl⟩
    · rintro ⟨rfl, rfl⟩
      exact ⟨hFits, List.append_nil _⟩
  · intro bs script
    simp only [readBytes_undoes.decodePartial_eq_ok_iff, readBytes_undoes.decodeWhole_eq_ok_iff,
      readBytes_undoes.decodeStream_eq_ok_iff]
    refine ⟨?_, ?_, ?_⟩
    · rintro n ⟨-, rfl, hPrefix⟩
      exact ⟨hPrefix.length_le, (List.prefix_iff_eq_take.1 hPrefix).symm⟩
    · constructor
      · rintro ⟨hFits, rfl⟩
        exact ⟨hFits, rfl, List.prefix_rfl⟩
      · rintro ⟨hFits, hLength, hPrefix⟩
        exact ⟨hFits, (hPrefix.eq_of_length hLength.symm).symm⟩
    · constructor
      · rintro ⟨hFits, hLimit, hPrefix⟩
        exact ⟨_, hLimit, hFits, rfl, hPrefix⟩
      · rintro ⟨n, hLimit, hFits, rfl, hPrefix⟩
        exact ⟨hFits, hLimit, hPrefix⟩

/-- The shortest script whose length takes more than one byte, with a byte behind it. -/
theorem script_decoding_threeByteLength :
    let script : Script := List.replicate 253 0x61
    let bs : Bytes := [0xfd, 0xfd, 0x00] ++ script ++ [0x51]
    script.length < 2 ^ 64 ∧ encodeBytes script = [0xfd, 0xfd, 0x00] ++ script ∧
      decodePartial readBytes bs = .ok (script, 256) ∧ bs.take 256 = encodeBytes script ∧
      decodeStream readBytes bs = .ok script ∧
      (∀ read, decodeWhole readBytes bs ≠ .ok read) ∧
      decodeWhole readBytes (encodeBytes script) = .ok script := by
  intro script bs
  obtain ⟨hWritten, hRead⟩ := script_decoding
  have hFits : script.length < 2 ^ 64 := by decide +kernel
  have hEncode : encodeBytes script = [0xfd, 0xfd, 0x00] ++ script := by decide +kernel
  have hBytes : bs = encodeBytes script ++ [0x51] := by rw [hEncode]
  have hLength : (encodeBytes script).length = 256 := by decide +kernel
  obtain ⟨hPartial, hWhole⟩ := hWritten script [0x51] hFits
  rw [← hBytes] at hPartial hWhole
  rw [hLength] at hPartial
  obtain ⟨hCounted, -, hStream⟩ := hRead bs script
  refine ⟨hFits, hEncode, hPartial, (hCounted 256 hPartial).2,
    hStream.2 ⟨256, by decide, hPartial⟩, ?_, ?_⟩
  · intro read h
    have hNothing := ((hWhole read).1 h).1
    cases hNothing
  · have h := ((hWritten script [] hFits).2 script).2 ⟨rfl, rfl⟩
    rwa [List.append_nil] at h

end LegacyScript.Wire
