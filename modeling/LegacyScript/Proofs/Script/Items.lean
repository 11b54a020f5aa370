import LegacyScript.Script.Instruction
import Mathlib.Tactic.Common

/-!
# Items of a script

What the items of a script have in common. An item takes at least its opcode,
so that a script has no more items than bytes. What an item means is what is
read behind its opcode: up to `0x4e` opcodes push bytes of the script, all others
stand for themselves.
-/

namespace LegacyScript

-- ---------------------------------------------------------------------------
-- Reading behind an opcode
-- ---------------------------------------------------------------------------

/-- The last opcode that pushes bytes of the script is `0x4e`. -/
theorem PushForm.ofOpcode?_eq_none_iff {code : Opcode} : ofOpcode? code = none ↔ 0x4e < code := by
  unfold ofOpcode?
  simp only [UInt8.le_iff_toNat_le, UInt8.lt_iff_toNat_lt, ← UInt8.toNat_inj]
  split_ifs <;> simp_all <;> omega

namespace Instruction

variable {code : Opcode} {bs : Bytes}

theorem read_of_lt (h : 0x4e < code) : read code bs = ⟨.ok (.op code), [], bs⟩ := by
  rw [read, PushForm.ofOpcode?_eq_none_iff.2 h]

/-- What announces data is never read as an opcode that stands for itself. -/
theorem readData_ne_op {width : Bytes} {size : Nat} {c : Opcode} :
    (readData width size bs).content ≠ .ok (.op c) := by
  unfold readData
  split <;> simp

theorem read_eq_op_iff {c : Opcode} :
    (read code bs).content = .ok (.op c) ↔ 0x4e < code ∧ c = code := by
  constructor
  · intro h
    rcases Decidable.em (0x4e < code) with hLt | hLe
    · rw [read_of_lt hLt] at h
      simp only [Except.ok.injEq, Instruction.op.injEq] at h
      exact ⟨hLt, h.symm⟩
    · unfold read at h
      split at h
      · next hForm => exact absurd (PushForm.ofOpcode?_eq_none_iff.1 hForm) hLe
      · exact absurd h readData_ne_op
      · split at h
        · simp at h
        · exact absurd h readData_ne_op
  · rintro ⟨hLt, rfl⟩
    rw [read_of_lt hLt]

theorem le_of_read_eq_push {data : Bytes} (h : (read code bs).content = .ok (.push data)) :
    code ≤ 0x4e := by
  rw [← UInt8.not_lt]
  intro hLt
  rw [read_of_lt hLt] at h
  simp at h

end Instruction

-- ---------------------------------------------------------------------------
-- Walking
-- ---------------------------------------------------------------------------

namespace Cursor

/-- All that reading an item says. -/
theorem next_eq_some_iff {c after : Cursor} {item : Item} :
    c.next = some (item, after) ↔ c.failed = false ∧ ∃ code bs, c.rest = code :: bs ∧
      item = ⟨c.position, code, (Instruction.read code bs).operand,
        (Instruction.read code bs).content⟩ ∧
      after = ⟨item.stop, (Instruction.read code bs).rest,
        !(Instruction.read code bs).content.isOk⟩ := by
  unfold next
  cases hFailed : c.failed with
  | true => simp
  | false =>
    cases hRest : c.rest with
    | nil => simp
    | cons code bs =>
      simp only [Bool.false_eq_true, if_false, Option.some.injEq, Prod.mk.injEq, List.cons.injEq,
        true_and]
      constructor
      · rintro ⟨rfl, rfl⟩
        exact ⟨code, bs, ⟨rfl, rfl⟩, rfl, rfl⟩
      · rintro ⟨code, bs, ⟨rfl, rfl⟩, rfl, rfl⟩
        exact ⟨rfl, rfl⟩

/-- There are no more items than bytes. -/
theorem length_items_le (c : Cursor) : c.items.length ≤ c.rest.length := by
  induction c using Cursor.items.induct with
  | case1 c hNext =>
    rw [items_of_next_eq_none hNext]
    exact Nat.zero_le _
  | case2 c item after hNext ih =>
    have hLt := length_rest_lt_of_next hNext
    rw [items_of_next_eq_some hNext, List.length_cons]
    omega

/-- Every item is read behind its own opcode. -/
theorem exists_read_of_mem_items {c : Cursor} {item : Item} (h : item ∈ c.items) :
    ∃ bs, item.content = (Instruction.read item.opcode bs).content := by
  induction c using Cursor.items.induct with
  | case1 c hNext =>
    rw [items_of_next_eq_none hNext] at h
    simp at h
  | case2 c first after hNext ih =>
    rw [items_of_next_eq_some hNext] at h
    rcases List.mem_cons.mp h with rfl | hAfter
    · obtain ⟨-, code, bs, -, rfl, -⟩ := next_eq_some_iff.1 hNext
      exact ⟨bs, rfl⟩
    · exact ih hAfter

/-- **All that is known of an item**: it is what is read behind its opcode, where the bytes
of the items in front of it end, and those behind it are what is left after that. -/
theorem items_split {c : Cursor} {front rest : List Item} {item : Item}
    (h : c.items = front ++ item :: rest) :
    ∃ bs, c.rest = front.flatMap Item.raw ++ item.opcode :: bs ∧
      item = ⟨c.position + (front.flatMap Item.raw).length, item.opcode,
        (Instruction.read item.opcode bs).operand, (Instruction.read item.opcode bs).content⟩ ∧
      rest = items ⟨item.stop, (Instruction.read item.opcode bs).rest, !item.content.isOk⟩ := by
  induction c using Cursor.items.induct generalizing front with
  | case1 c hNext =>
    rw [items_of_next_eq_none hNext] at h
    simp at h
  | case2 c first after hNext ih =>
    rw [items_of_next_eq_some hNext] at h
    obtain ⟨-, code, bs, hRest, rfl, rfl⟩ := next_eq_some_iff.1 hNext
    -- induction on the cursor: the item is the one that is read, or behind it
    cases front with
    | nil =>
      obtain ⟨rfl, rfl⟩ := List.cons.inj h
      exact ⟨bs, hRest, rfl, rfl⟩
    | cons other front =>
      obtain ⟨rfl, hItems⟩ := List.cons.inj h
      obtain ⟨tail, hTail, hItem, hBehind⟩ := ih hItems
      have hBytes := Instruction.read_append code bs
      refine ⟨tail, ?_, ?_, hBehind⟩
      · dsimp only at hTail
        rw [hRest, List.flatMap_cons, Item.raw, List.cons_append, List.cons_append,
          List.append_assoc, ← hTail, hBytes]
      · rw [List.flatMap_cons, List.length_append, ← Nat.add_assoc]
        exact hItem

/-- **Items lie one behind the other**: an item begins where the bytes of those in front of
it end. -/
theorem rest_eq_of_items {c : Cursor} {front rest : List Item} {item : Item}
    (h : c.items = front ++ item :: rest) :
    item.start = c.position + (front.flatMap Item.raw).length ∧
      ∃ bs, c.rest = front.flatMap Item.raw ++ (item.raw ++ bs) := by
  obtain ⟨bs, hRest, hItem, -⟩ := items_split h
  refine ⟨congrArg Item.start hItem, (Instruction.read item.opcode bs).rest, ?_⟩
  have hOperand : item.operand = (Instruction.read item.opcode bs).operand :=
    congrArg Item.operand hItem
  rw [hRest, Item.raw, hOperand, List.cons_append, Instruction.read_append]

end Cursor

namespace Script

variable {script : Script} {item : Item}

/-- An offset in a script where the bytes of some front of its items end. -/
def Boundary (script : Script) (offset : Nat) : Prop :=
  ∃ front rest, script.items = front ++ rest ∧ front.flatMap Item.raw = script.take offset ∧
    offset ≤ script.length

theorem boundary_zero (script : Script) : script.Boundary 0 :=
  ⟨[], script.items, rfl, List.take_zero.symm, Nat.zero_le _⟩

/-- Every item ends at a boundary. -/
theorem boundary_stop (h : item ∈ script.items) : script.Boundary item.stop := by
  obtain ⟨front, rest, hItems⟩ := List.append_of_mem h
  obtain ⟨hStart, bs, hBytes⟩ := Cursor.rest_eq_of_items hItems
  change script = _ at hBytes
  change item.start = 0 + _ at hStart
  have hStop : (front.flatMap Item.raw ++ item.raw).length = item.stop := by
    rw [Item.stop, hStart, Nat.zero_add, List.length_append]
  rw [← List.append_assoc] at hBytes
  refine ⟨front ++ [item], rest, ?_, ?_, ?_⟩
  · rw [hItems, List.append_assoc]
    rfl
  · rw [List.flatMap_append, List.flatMap_singleton, ← hStop, hBytes, List.take_left]
  · rw [← hStop, hBytes]
    exact (List.prefix_append _ _).length_le

theorem length_items_le (script : Script) : script.items.length ≤ script.length :=
  Cursor.length_items_le (Cursor.start script)

/-- An instruction that is not a push is its opcode. -/
theorem opcode_eq_of_op {code : Opcode} (h : item ∈ script.items)
    (hContent : item.content = .ok (.op code)) : item.opcode = code := by
  obtain ⟨bs, hRead⟩ := Cursor.exists_read_of_mem_items h
  exact (Instruction.read_eq_op_iff.1 (hRead.symm.trans hContent)).2.symm

theorem lt_of_op {code : Opcode} (h : item ∈ script.items)
    (hContent : item.content = .ok (.op code)) : 0x4e < code := by
  obtain ⟨bs, hRead⟩ := Cursor.exists_read_of_mem_items h
  obtain ⟨hLt, rfl⟩ := Instruction.read_eq_op_iff.1 (hRead.symm.trans hContent)
  exact hLt

theorem opcode_le_of_push {data : Bytes} (h : item ∈ script.items)
    (hContent : item.content = .ok (.push data)) : item.opcode ≤ 0x4e := by
  obtain ⟨bs, hRead⟩ := Cursor.exists_read_of_mem_items h
  exact Instruction.le_of_read_eq_push (hRead.symm.trans hContent)

/-- What does not stand for itself pushes, or announces a push that is cut off. -/
theorem opcode_le_of_ne_op (h : item ∈ script.items)
    (hContent : ∀ code, item.content ≠ .ok (.op code)) : item.opcode ≤ 0x4e := by
  obtain ⟨bs, hRead⟩ := Cursor.exists_read_of_mem_items h
  rw [← UInt8.not_lt]
  intro hLt
  rw [Instruction.read_of_lt hLt] at hRead
  exact hContent item.opcode hRead

end Script

-- ---------------------------------------------------------------------------
-- Opcodes
-- ---------------------------------------------------------------------------

/-- What an opcode stands for is in the table, unless the opcode pushes bytes. -/
theorem Opcode.exists_row {code : Opcode} {operation : Operation}
    (h : code.operation? = some operation) (hPush : operation ≠ .pushBytes) :
    ∃ row ∈ rows, row.opcode = code ∧ row.operation = operation := by
  unfold operation? at h
  split at h
  · exact absurd (Option.some.inj h).symm hPush
  · obtain ⟨row, hRow, hOperation⟩ := Option.map_eq_some_iff.1 h
    unfold row? at hRow
    have hCode := List.find?_some hRow
    exact ⟨row, List.mem_of_find?_eq_some hRow, eq_of_beq hCode, hOperation⟩

theorem Opcode.operation?_of_le {code : Opcode} (h : code ≤ 0x4e) :
    code.operation? = some .pushBytes := by
  rcases Decidable.em (code ≤ 0x4b) with hDirect | hDirect
  · simp [operation?, isDirectPush, hDirect]
  · have hCases : code = 0x4c ∨ code = 0x4d ∨ code = 0x4e := by
      simp only [UInt8.le_iff_toNat_le, ← UInt8.toNat_inj] at *
      simp at *
      omega
    rcases hCases with rfl | rfl | rfl <;> rfl

end LegacyScript
