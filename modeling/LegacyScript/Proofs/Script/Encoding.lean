import LegacyScript.Proofs.Script.Segments
import Mathlib.Data.List.Forall2

/-!
# Instructions and their shortest bytes

An instruction is written in its shortest bytes and read back from them, also when others
are written behind it. So a list of instructions that are written one after the other is
what the script decodes to. No instruction of a script takes fewer bytes there than its
shortest ones.

## Results

* `writable_of_mem_items` — what a script decodes to can be written, in no more bytes.
* `raw_of_op`             — an opcode that stands for itself takes one byte.
* `items_flatMap_encode`  — written instructions are read back one by one.
-/

namespace LegacyScript

-- ---------------------------------------------------------------------------
-- What can be written
-- ---------------------------------------------------------------------------

namespace Instruction

/-- Whether an instruction has bytes that are decoded to it: data may not be too long, and
an opcode has to stand for itself. -/
def Writable : Instruction → Prop
  | .push data => Push.fits data = true
  | .op code => 0x4e < code

end Instruction

theorem Push.width_cases {code : Opcode} {width : Nat} (h : (code, width) ∈ Push.countedForms) :
    width = 1 ∨ width = 2 ∨ width = 4 := by
  simp only [Push.countedForms, List.mem_cons, Prod.mk.injEq, List.not_mem_nil, or_false] at h
  omega

theorem Push.length_header (size : Nat) : (Push.header size).length =
    if size ≤ 0x4b then 1 else if size ≤ 0xff then 2 else if size ≤ 0xffff then 3 else 5 := by
  unfold Push.header
  split_ifs
  · simp
  · simp
  · simp
  · simp

namespace Announces

variable {code : Opcode} {width : Bytes} {size : Nat}

theorem size_le (h : Announces code width size) : size ≤ 0xffffffff := by
  cases h with
  | direct hCode =>
    have := code.toNat_lt
    omega
  | counted hForm =>
    have hWidth : width.length ≤ 4 := by
      have := Push.width_cases hForm
      omega
    have hValue := Bytes.toNatLE_lt width
    have hPow : 256 ^ width.length ≤ 256 ^ 4 := Nat.pow_le_pow_right (by decide) hWidth
    omega

/-- The bytes that announce data are never fewer than those of the shortest push. -/
theorem length_header_le (h : Announces code width size) :
    (Push.header size).length ≤ width.length + 1 := by
  rw [Push.length_header]
  cases h with
  | direct hCode =>
    have hSize : code.toNat ≤ 0x4b := UInt8.le_iff_toNat_le.1 hCode
    rw [if_pos hSize]
    omega
  | counted hForm =>
    have hValue := Bytes.toNatLE_lt width
    rcases Push.width_cases hForm with hWidth | hWidth | hWidth
    · rw [hWidth] at hValue ⊢
      split_ifs <;> omega
    · rw [hWidth] at hValue ⊢
      split_ifs <;> omega
    · rw [hWidth]
      split_ifs <;> omega

end Announces

namespace Script

variable {script : Script} {item : Item} {instruction : Instruction}

/-- What a script decodes to can be written, and not in more bytes. -/
theorem writable_of_mem_items (h : item ∈ script.items)
    (hContent : item.content = .ok instruction) :
    instruction.Writable ∧ instruction.encode.length ≤ item.raw.length := by
  obtain ⟨-, -, hReads⟩ := reads_of_mem_items h
  rw [hContent] at hReads
  generalize hOperand : item.operand = operand, script.drop (item.start + 1) = behind,
    script.drop item.stop = rest at hReads
  rw [Item.raw, hOperand]
  cases hReads with
  | op hCode => exact ⟨hCode, Nat.le_refl _⟩
  | push hAnnounces =>
    refine ⟨decide_eq_true hAnnounces.size_le, ?_⟩
    have hHeader := hAnnounces.length_header_le
    rw [Instruction.encode, Push.encode, List.length_append, List.length_cons, List.length_append]
    omega

/-- An opcode that stands for itself takes one byte. -/
theorem raw_of_op {code : Opcode} (h : item ∈ script.items)
    (hContent : item.content = .ok (.op code)) : item.raw = [code] := by
  obtain ⟨-, -, hReads⟩ := reads_of_mem_items h
  rw [hContent] at hReads
  generalize hOperand : item.operand = operand, hCode : item.opcode = opcode,
    script.drop (item.start + 1) = behind, script.drop item.stop = rest at hReads
  rw [Item.raw, hOperand, hCode]
  cases hReads with
  | op hOwn => rfl

-- ---------------------------------------------------------------------------
-- Written instructions are read back
-- ---------------------------------------------------------------------------

/-- An instruction that is written is all that is read. -/
theorem single_encode (h : instruction.Writable) :
    Single (.ok instruction, instruction.encode) := by
  cases instruction with
  | op code => exact single_of_read rfl (Instruction.read_of_lt h)
  | push data =>
    obtain ⟨code, width, hHeader, hAnnounces⟩ := Push.header_announces (of_decide_eq_true h)
    have hRead := Instruction.read_push hAnnounces []
    rw [List.append_nil] at hRead
    rw [Instruction.encode, Push.encode, hHeader, List.cons_append]
    exact single_of_read rfl hRead

/-- **Written instructions are read back one by one**, each from its own bytes. -/
theorem items_flatMap_encode {instructions : List Instruction}
    (h : ∀ instruction ∈ instructions, instruction.Writable) :
    List.Forall₂ (fun item instruction =>
        item.content = .ok instruction ∧ item.raw = instruction.encode)
      (items (instructions.flatMap Instruction.encode)) instructions := by
  have hRow : ∀ segment ∈ instructions.map fun instruction =>
      ((.ok instruction, instruction.encode) : Segment), Single segment := by
    intro segment hMem
    obtain ⟨instruction, hIn, rfl⟩ := List.mem_map.1 hMem
    exact single_encode (h instruction hIn)
  have hSegments := segments_flatMap_self hRow
  rw [List.flatMap_map, segments, ← List.forall₂_eq_eq_eq, List.forall₂_map_left_iff,
    List.forall₂_map_right_iff] at hSegments
  refine hSegments.imp fun item instruction hSegment => ?_
  obtain ⟨hContent, hExtent⟩ := Prod.mk.inj hSegment
  have hOk : item.content.isOk = true := by
    rw [hContent]
    rfl
  exact ⟨hContent, (extent_of_ok hOk).symm.trans hExtent⟩

end Script

end LegacyScript
