import LegacyScript.Proofs.Script.Deletion
import LegacyScript.Proofs.Script.Encoding

/-!
# Removing a signature

A signature is removed from a script code by the bytes of its shortest push, wherever they
stand. Where each copy of these bytes begins with an instruction, the copies are the
instructions that push the signature, and all other instructions stay as they are: bytes
of a push that are found where an instruction begins are that instruction.

Copies are looked for inside of instructions too. A script that pushes the push of a
signature loses a part of that data, and what is left need not decode to the instructions
that were there (`removeSignature_within_push`).

## Results

* `raw_eq_of_occursAt`         — a push that is found at an instruction is the instruction.
* `removeSignature_of_aligned` — removal of whole instructions.
-/

namespace LegacyScript

theorem Push.encode_ne_nil (data : Bytes) : Push.encode data ≠ [] := by
  have hHeader := Push.length_header data.length
  intro hNil
  rw [Push.encode, List.append_eq_nil_iff] at hNil
  rw [hNil.1, List.length_nil] at hHeader
  split_ifs at hHeader

namespace Script

variable {script : Script} {item : Item} {data : Bytes}

/-- **A push that is found where an instruction begins is the instruction.** -/
theorem raw_eq_of_occursAt (hFits : Push.fits data = true) (h : item ∈ script.items)
    (hCopy : OccursAt (Push.encode data) script item.start) : item.raw = Push.encode data := by
  obtain ⟨front, rest, hItems⟩ := List.append_of_mem h
  obtain ⟨bs, hScript, hItem, -⟩ := Cursor.items_split hItems
  obtain ⟨-, -, hStart, -⟩ := eq_append_of_items hItems
  change script = _ at hScript
  obtain ⟨code, width, hHeader, hAnnounces⟩ := Push.header_announces (of_decide_eq_true hFits)
  -- the push and the item are read from the same bytes
  obtain ⟨more, hMore⟩ := hCopy
  rw [hStart, hScript, List.drop_left, Push.encode, hHeader, List.cons_append,
    List.cons_append] at hMore
  obtain ⟨hCode, rfl⟩ := List.cons.inj hMore
  have hOperand := congrArg Item.operand hItem
  rw [← hCode, Instruction.read_push hAnnounces] at hOperand
  rw [Item.raw, ← hCode, hOperand, Push.encode, hHeader, List.cons_append]

/-- **A signature is removed by whole instructions** from a script code that can be decoded,
where each copy of its push begins with an instruction: what is left is read as the other
instructions, each from its own bytes. -/
theorem removeSignature_of_aligned {signature : Bytes}
    (hOk : ∀ item ∈ script.items, item.content.isOk = true)
    (hSize : signature.length ≤ maxElementSize)
    (hAligned : ∀ p, OccursAt (Push.encode signature) script p →
      ∃ item ∈ script.items, item.start = p) :
    (script.removeSignature signature).segments =
      script.segments.filter (·.2 ≠ Push.encode signature) := by
  have hFits : Push.fits signature = true := by
    refine decide_eq_true (hSize.trans ?_)
    decide
  have hScript : (script.items.map Item.raw).flatten = script := flatMap_raw_of_ok hOk
  have hRaw : script.segments.map Prod.snd = script.items.map Item.raw := by
    rw [segments, List.map_map]
    exact List.map_congr_left fun item hMem => extent_of_ok (hOk item hMem)
  -- each copy is an instruction, so that deletion leaves out instructions
  have hPieces : ∀ p, OccursAt (Push.encode signature) (script.items.map Item.raw).flatten p →
      ∃ front rest, script.items.map Item.raw = front ++ Push.encode signature :: rest ∧
        p = front.flatten.length := by
    rw [hScript]
    intro p hCopy
    obtain ⟨item, hMem, rfl⟩ := hAligned p hCopy
    obtain ⟨front, rest, hItems⟩ := List.append_of_mem hMem
    obtain ⟨-, -, hStart, -⟩ := eq_append_of_items hItems
    refine ⟨front.map Item.raw, rest.map Item.raw, ?_, hStart⟩
    rw [hItems, List.map_append, List.map_cons, raw_eq_of_occursAt hFits hMem hCopy]
  have hKept : script.removeSignature signature =
      (script.segments.filter (·.2 ≠ Push.encode signature)).flatMap Prod.snd := by
    have hFlatten := deleteAll_flatten (Push.encode_ne_nil signature) hPieces
    rw [hScript, ← hRaw, List.filter_map] at hFlatten
    rw [removeSignature, if_pos hFits, hFlatten]
    rfl
  rw [hKept]
  exact segments_flatMap_self fun segment hMem =>
    single_of_mem_segments hOk segment (List.mem_of_mem_filter hMem)

/-- The push of a signature goes, and data that holds only its first byte stays. -/
theorem removeSignature_of_aligned_push :
    let script : Script := [0x01, 0xaa, 0x75, 0x02, 0xbb, 0x01, 0xac]
    let signature : Bytes := [0xaa]
    (∀ item ∈ script.items, item.content.isOk = true) ∧ signature.length ≤ maxElementSize ∧
      (∀ p, OccursAt (Push.encode signature) script p → ∃ item ∈ script.items, item.start = p) ∧
      (script.removeSignature signature).segments =
        [(.ok (.op 0x75), [0x75]), (.ok (.push [0xbb, 0x01]), [0x02, 0xbb, 0x01]),
          (.ok (.op 0xac), [0xac])] := by
  intro script signature
  have hOk : ∀ item ∈ script.items, item.content.isOk = true := by decide +kernel
  have hSize : signature.length ≤ maxElementSize := by decide
  have hAligned : ∀ p, OccursAt (Push.encode signature) script p →
      ∃ item ∈ script.items, item.start = p := by
    have hWithin : ∀ p < script.length, OccursAt (Push.encode signature) script p →
        ∃ item ∈ script.items, item.start = p := by decide +kernel
    intro p hCopy
    exact hWithin p (hCopy.lt_length (Push.encode_ne_nil signature)) hCopy
  refine ⟨hOk, hSize, hAligned, ?_⟩
  rw [removeSignature_of_aligned hOk hSize hAligned]
  decide +kernel

/-- **A copy inside of an instruction is removed as well.** A script pushes two bytes that
are the push of a signature, and goes on with a drop and a test. Removal takes the two bytes
out of the data, and what is left is a single push that swallows both opcodes. -/
theorem removeSignature_within_push :
    let script : Script := [0x02, 0x01, 0xaa, 0x75, 0xac]
    let signature : Bytes := [0xaa]
    (∀ item ∈ script.items, item.content.isOk = true) ∧ signature.length ≤ maxElementSize ∧
      script.segments.filter (·.2 ≠ Push.encode signature) =
        [(.ok (.push [0x01, 0xaa]), [0x02, 0x01, 0xaa]), (.ok (.op 0x75), [0x75]),
          (.ok (.op 0xac), [0xac])] ∧
      (script.removeSignature signature).segments =
        [(.ok (.push [0x75, 0xac]), [0x02, 0x75, 0xac])] ∧
      (script.removeSignature signature).segments ≠
        script.segments.filter (·.2 ≠ Push.encode signature) := by
  decide +kernel

end Script

end LegacyScript
