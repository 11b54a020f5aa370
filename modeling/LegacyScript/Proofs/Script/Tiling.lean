import LegacyScript.Proofs.Script.Reading
import Mathlib.Data.List.Chain

/-!
# Items tile a script

The items of a script lie one behind the other, from its beginning on and without a gap.
An item that is no instruction is the last. If there is none, the items use the script up,
and what is written behind the script is decoded as a script of its own.

An item is what is read behind its opcode (`Reads`), so that the bytes behind the opcode
decide whether it is an error, and which one (`FailsBy`).

## Results

* `calls_next`         — the answers to any number of calls of an iterator.
* `items_append`       — items of a script with another one behind it.
* `tiled_items`        — how the items lie in the script.
* `reads_of_mem_items` — what the bytes behind an opcode decide.
* `items_tile`         — all of this together.
-/

namespace LegacyScript

namespace Item

/-- The item of a script that has `offset` bytes more in front. -/
def shift (offset : Nat) (item : Item) : Item :=
  { item with start := item.start + offset }

/-- What an item means, with the offset at which it begins if it is an instruction. -/
def indexed (item : Item) : Except DecodeError (Nat × Instruction) :=
  item.content.map (item.start, ·)

/-- How the bytes behind an opcode decide that it cannot be decoded. -/
structure FailsBy (item : Item) (behind : Bytes) : Prop where
  /-- The length of a push is cut off just when its opcode asks for more bytes than follow. -/
  earlyEnd_iff : item.content = .error .earlyEnd ↔
    ∃ width, (item.opcode, width) ∈ [(0x4c, 1), (0x4d, 2), (0x4e, 4)] ∧ behind.length < width
  /-- The item is then its opcode alone. -/
  earlyEnd_stop : item.content = .error .earlyEnd → item.stop = item.start + 1
  /-- The data of a push is cut off just when more is announced than what remains. -/
  pushPastEnd_iff : item.content = .error .pushPastEnd ↔
    ∃ width size rest, behind = width ++ rest ∧ Announces item.opcode width size ∧
      rest.length < size
  /-- The item is then its opcode and its length. -/
  pushPastEnd_stop : ∀ width size rest, behind = width ++ rest →
    Announces item.opcode width size → rest.length < size →
      item.stop = item.start + 1 + width.length

end Item

/-- How items lie in a script. -/
structure Script.Tiled (script : Script) (items : List Item) : Prop where
  /-- The first item begins with the script. -/
  start_eq : ∀ item ∈ items.head?, item.start = 0
  /-- Each item begins where the one in front of it ends. -/
  chain : items.IsChain fun item following => following.start = item.stop
  /-- No item is empty. -/
  start_lt : ∀ item ∈ items, item.start < item.stop
  /-- No item goes beyond the script. -/
  stop_le : ∀ item ∈ items, item.stop ≤ script.length
  /-- An item holds the bytes of the script from where it begins to where it ends. -/
  raw_eq : ∀ item ∈ items, item.raw = (script.take item.stop).drop item.start
  /-- Without an error the last item ends with the script. -/
  stop_eq : (∀ item ∈ items, item.content.isOk) →
    items.getLast?.elim 0 Item.stop = script.length
  /-- An item that is an error is the last. -/
  error_last : ∀ front item rest, items = front ++ item :: rest → item.content.isOk = false →
    rest = []

-- ---------------------------------------------------------------------------
-- Errors
-- ---------------------------------------------------------------------------

/-- The bytes behind an opcode decide that it cannot be decoded. -/
theorem Item.failsBy_read (start : Nat) (code : Opcode) (bs : Bytes) :
    Item.FailsBy ⟨start, code, (Instruction.read code bs).operand,
      (Instruction.read code bs).content⟩ bs where
  earlyEnd_iff := Instruction.content_read_eq_earlyEnd_iff
  earlyEnd_stop := by
    intro h
    obtain ⟨width, hForm, hShort⟩ := Instruction.content_read_eq_earlyEnd_iff.1 h
    rw [Instruction.read_of_lt_width hForm hShort]
    rfl
  pushPastEnd_iff := Instruction.content_read_eq_pushPastEnd_iff
  pushPastEnd_stop := by
    rintro width size rest rfl hAnnounces hShort
    rw [Instruction.read_of_lt_announced hAnnounces hShort]
    change start + (width.length + 1) = start + 1 + width.length
    omega

-- ---------------------------------------------------------------------------
-- Calls of an iterator
-- ---------------------------------------------------------------------------

namespace Cursor

section Calls

variable {α : Type} {read : Cursor → Option (α × Cursor)} {c after : Cursor} {answer : α}

theorem calls_of_none (h : read c = none) (n : Nat) :
    c.calls read (n + 1) = (none, c.position) :: c.calls read n := by
  rw [calls, call, h]

theorem calls_of_some (h : read c = some (answer, after)) (n : Nat) :
    c.calls read (n + 1) = (some answer, after.position) :: after.calls read n := by
  rw [calls, call, h]

end Calls

/-- **The answers to any number of calls**: first the items in order, each with where it
ends, and then nothing any more. -/
theorem calls_next (n : Nat) (c : Cursor) :
    c.calls next n = (List.range n).map fun i =>
      (c.items[i]?, c.position + ((c.items.take (i + 1)).flatMap Item.raw).length) := by
  induction n generalizing c with
  | zero => rfl
  | succ n ih =>
    rw [List.range_succ_eq_map, List.map_cons, List.map_map]
    cases hNext : c.next with
    | none =>
      rw [calls_of_none hNext, ih, items_of_next_eq_none hNext]
      simp [Function.comp_def]
    | some pair =>
      obtain ⟨item, after⟩ := pair
      have hAfter : after.position = c.position + item.raw.length := by
        obtain ⟨-, code, bs, -, rfl, rfl⟩ := next_eq_some_iff.1 hNext
        rfl
      rw [calls_of_some hNext, ih, items_of_next_eq_some hNext]
      simp [hAfter, Nat.add_assoc]

theorem nextIndexed_eq (c : Cursor) :
    c.nextIndexed = c.next.map fun (item, after) => (item.indexed, after) := by
  unfold nextIndexed
  cases hNext : c.next with
  | none => rfl
  | some pair =>
    obtain ⟨item, after⟩ := pair
    obtain ⟨-, code, bs, -, rfl, -⟩ := next_eq_some_iff.1 hNext
    rfl

/-- Instructions come with their offsets just where items come. -/
theorem calls_nextIndexed (n : Nat) (c : Cursor) :
    c.calls nextIndexed n =
      (c.calls next n).map fun (answer, position) => (answer.map Item.indexed, position) := by
  induction n generalizing c with
  | zero => rfl
  | succ n ih =>
    have hIndexed := nextIndexed_eq c
    cases hNext : c.next with
    | none =>
      rw [hNext] at hIndexed
      rw [calls_of_none hIndexed, calls_of_none hNext, ih]
      rfl
    | some pair =>
      obtain ⟨item, after⟩ := pair
      rw [hNext] at hIndexed
      rw [calls_of_some hIndexed, calls_of_some hNext, ih]
      rfl

-- ---------------------------------------------------------------------------
-- One script behind another
-- ---------------------------------------------------------------------------

theorem next_of_cons (position : Nat) (code : Opcode) (bs : Bytes) :
    next ⟨position, code :: bs, false⟩ =
      some (⟨position, code, (Instruction.read code bs).operand,
          (Instruction.read code bs).content⟩,
        ⟨position + ((Instruction.read code bs).operand.length + 1),
          (Instruction.read code bs).rest, !(Instruction.read code bs).content.isOk⟩) := rfl

/-- **Items of a script that decodes do not depend on what is behind it**, and what is behind
it is decoded as if it began there. -/
theorem items_append {c : Cursor} (hStart : c.failed = false)
    (hOk : ∀ item ∈ c.items, item.content.isOk = true) (more : Bytes) :
    items ⟨c.position, c.rest ++ more, false⟩ =
      c.items ++ items ⟨c.position + c.rest.length, more, false⟩ := by
  induction c using Cursor.items.induct with
  | case1 c hNext =>
    have hRest : c.rest = [] := by
      rcases next_eq_none_iff.1 hNext with hFailed | hRest
      · rw [hStart] at hFailed
        exact absurd hFailed Bool.false_ne_true
      · exact hRest
    rw [items_of_next_eq_none hNext, hRest]
    rfl
  | case2 c item after hNext ih =>
    rw [items_of_next_eq_some hNext] at hOk ⊢
    obtain ⟨-, code, bs, hRest, rfl, rfl⟩ := next_eq_some_iff.1 hNext
    have hItem : (Instruction.read code bs).content.isOk = true := hOk _ List.mem_cons_self
    have hBytes := congrArg List.length (Instruction.read_append code bs)
    have hAppend : next ⟨c.position, c.rest ++ more, false⟩ = some
        (⟨c.position, code, (Instruction.read code bs).operand,
            (Instruction.read code bs).content⟩,
          ⟨c.position + ((Instruction.read code bs).operand.length + 1),
            (Instruction.read code bs).rest ++ more, false⟩) := by
      rw [hRest, List.cons_append, next_of_cons, Instruction.read_append_of_ok rfl hItem more,
        hItem]
      rfl
    have hAfter := ih (by simp [hItem]) fun item hMem => hOk item (List.mem_cons_of_mem _ hMem)
    have hStop : c.position + c.rest.length =
        c.position + ((Instruction.read code bs).operand.length + 1) +
          (Instruction.read code bs).rest.length := by
      rw [List.length_append] at hBytes
      rw [hRest, List.length_cons]
      omega
    rw [items_of_next_eq_some hAppend, List.cons_append, hStop]
    exact congrArg _ hAfter

theorem items_eq_nil_iff {c : Cursor} : c.items = [] ↔ c.failed = true ∨ c.rest = [] := by
  rw [← next_eq_none_iff]
  cases hNext : c.next with
  | none => simp [items_of_next_eq_none hNext]
  | some pair => simp [items_of_next_eq_some hNext]

/-- Where a script begins is added to all offsets. -/
theorem items_shift (offset : Nat) (c : Cursor) :
    items ⟨c.position + offset, c.rest, c.failed⟩ = c.items.map (Item.shift offset) := by
  induction c using Cursor.items.induct with
  | case1 c hNext =>
    have hEnd := next_eq_none_iff.1 hNext
    have hShift : next ⟨c.position + offset, c.rest, c.failed⟩ = none := next_eq_none_iff.2 hEnd
    rw [items_of_next_eq_none hNext, items_of_next_eq_none hShift]
    rfl
  | case2 c item after hNext ih =>
    have hShift : next ⟨c.position + offset, c.rest, c.failed⟩ =
        some (item.shift offset, ⟨after.position + offset, after.rest, after.failed⟩) := by
      obtain ⟨hFailed, code, bs, hRest, rfl, rfl⟩ := next_eq_some_iff.1 hNext
      refine next_eq_some_iff.2 ⟨hFailed, code, bs, hRest, rfl, ?_⟩
      simp only [Item.shift, Item.stop, Item.raw]
      rw [Nat.add_right_comm]
    rw [items_of_next_eq_some hNext, items_of_next_eq_some hShift, ih]
    rfl

end Cursor

-- ---------------------------------------------------------------------------
-- Whole scripts
-- ---------------------------------------------------------------------------

namespace Script

variable {script : Script} {front rest : List Item} {item : Item}

/-- An item lies in its script, and the items behind it are those of the bytes behind it. -/
theorem eq_append_of_items (h : script.items = front ++ item :: rest) :
    ∃ bs, script = front.flatMap Item.raw ++ (item.raw ++ bs) ∧
      item.start = (front.flatMap Item.raw).length ∧
      item.stop = (front.flatMap Item.raw).length + item.raw.length ∧
      rest = Cursor.items ⟨item.stop, bs, !item.content.isOk⟩ := by
  obtain ⟨bs, hScript, hItem, hRest⟩ := Cursor.items_split h
  change script = _ at hScript
  have hStart : item.start = (front.flatMap Item.raw).length := by
    rw [hItem]
    exact Nat.zero_add _
  have hOperand : item.operand = (Instruction.read item.opcode bs).operand :=
    congrArg Item.operand hItem
  refine ⟨(Instruction.read item.opcode bs).rest, ?_, hStart, ?_, hRest⟩
  · rw [Item.raw, hOperand, List.cons_append, Instruction.read_append]
    exact hScript
  · rw [Item.stop, hStart]

/-- A front of the items ends where its last item does. -/
theorem length_flatMap_raw (h : script.items = front ++ rest) :
    (front.flatMap Item.raw).length = front.getLast?.elim 0 Item.stop := by
  cases hLast : front.getLast? with
  | none =>
    rw [List.getLast?_eq_none_iff.1 hLast]
    rfl
  | some last =>
    obtain ⟨init, rfl⟩ := List.getLast?_eq_some_iff.1 hLast
    rw [List.append_assoc] at h
    obtain ⟨-, -, -, hStop, -⟩ := eq_append_of_items h
    rw [List.flatMap_append, List.flatMap_singleton, List.length_append, ← hStop]
    rfl

/-- Without an error the items hold all bytes of the script. -/
theorem flatMap_raw_of_ok (hOk : ∀ item ∈ script.items, item.content.isOk = true) :
    script.items.flatMap Item.raw = script := by
  cases hLast : script.items.getLast? with
  | none =>
    have hItems : script.items = [] := List.getLast?_eq_none_iff.1 hLast
    have hScript : script = [] := (Cursor.items_eq_nil_iff.1 hItems).resolve_left Bool.false_ne_true
    rw [hItems, List.flatMap_nil, hScript]
  | some last =>
    obtain ⟨init, hItems⟩ := List.getLast?_eq_some_iff.1 hLast
    obtain ⟨bs, hScript, -, -, hRest⟩ := eq_append_of_items hItems
    -- the last item is an instruction, so that nothing is left behind it
    have hLastOk : last.content.isOk = true := hOk last (List.mem_of_getLast? hLast)
    have hEnd : bs = [] := by
      rw [hLastOk] at hRest
      exact (Cursor.items_eq_nil_iff.1 hRest.symm).resolve_left Bool.false_ne_true
    rw [hEnd, List.append_nil] at hScript
    rw [hItems, List.flatMap_append, List.flatMap_singleton]
    exact hScript.symm

theorem items_append_of_ok (hOk : ∀ item ∈ script.items, item.content.isOk = true)
    (more : Script) :
    items (script ++ more) = script.items ++ more.items.map (Item.shift script.length) := by
  have hShift := Cursor.items_shift script.length (Cursor.start more)
  rw [← show Script.items more = (Cursor.start more).items from rfl] at hShift
  rw [← hShift]
  exact Cursor.items_append rfl hOk more

theorem tiled_items (script : Script) : script.Tiled script.items where
  start_eq := by
    intro item hHead
    obtain ⟨rest, hItems⟩ := List.head?_eq_some_iff.1 hHead
    have hFront : script.items = [] ++ item :: rest := hItems
    obtain ⟨-, -, hStart, -⟩ := eq_append_of_items hFront
    exact hStart
  chain := by
    refine List.isChain_iff_forall_rel_of_append_cons_cons.2 fun item following front rest h => ?_
    -- the item behind an item is the first of those that are left there
    obtain ⟨bs, -, -, -, hRest⟩ := eq_append_of_items h
    have hFirst : Cursor.items ⟨item.stop, bs, !item.content.isOk⟩ = [] ++ following :: rest :=
      hRest.symm
    obtain ⟨_, -, hFollowing, -⟩ := Cursor.items_split hFirst
    exact congrArg Item.start hFollowing
  start_lt := by
    intro item _
    rw [Item.stop, Item.raw, List.length_cons]
    omega
  stop_le := by
    intro item hMem
    obtain ⟨front, rest, hItems⟩ := List.append_of_mem hMem
    obtain ⟨bs, hScript, -, hStop, -⟩ := eq_append_of_items hItems
    rw [hStop, hScript, List.length_append, List.length_append]
    omega
  raw_eq := by
    intro item hMem
    obtain ⟨front, rest, hItems⟩ := List.append_of_mem hMem
    obtain ⟨bs, hScript, hStart, hStop, -⟩ := eq_append_of_items hItems
    rw [hStart, hStop, hScript, ← List.append_assoc, ← List.length_append, List.take_left,
      List.drop_left]
  stop_eq := by
    intro hOk
    rw [← length_flatMap_raw (List.append_nil _).symm, flatMap_raw_of_ok hOk]
  error_last := by
    intro front item rest hItems hError
    obtain ⟨bs, -, -, -, hRest⟩ := eq_append_of_items hItems
    rw [hRest, hError]
    exact Cursor.items_of_next_eq_none rfl

/-- The bytes behind an opcode decide what its item is. -/
theorem reads_of_mem_items (h : item ∈ script.items) :
    let behind := script.drop (item.start + 1)
    script[item.start]? = some item.opcode ∧ item.FailsBy behind ∧
      Instruction.Reads item.opcode behind
        ⟨item.content, item.operand, script.drop item.stop⟩ := by
  obtain ⟨front, rest, hItems⟩ := List.append_of_mem h
  obtain ⟨bs, hScript, hItem, -⟩ := Cursor.items_split hItems
  obtain ⟨-, -, hStart, hStop, -⟩ := eq_append_of_items hItems
  change script = _ at hScript
  have hOperand : item.operand = (Instruction.read item.opcode bs).operand :=
    congrArg Item.operand hItem
  have hContent : item.content = (Instruction.read item.opcode bs).content :=
    congrArg Item.content hItem
  have hBehind : script.drop (item.start + 1) = bs := by
    rw [hStart, hScript, List.drop_append]
    simp
  have hRest : script.drop item.stop = (Instruction.read item.opcode bs).rest := by
    have hBytes := Instruction.read_append item.opcode bs
    rw [← hOperand] at hBytes
    have hRaw : script =
        front.flatMap Item.raw ++ item.raw ++ (Instruction.read item.opcode bs).rest := by
      rw [List.append_assoc, Item.raw, List.cons_append, hBytes]
      exact hScript
    rw [hStop, ← List.length_append]
    exact (congrArg (List.drop _) hRaw).trans List.drop_left
  dsimp only
  rw [hBehind]
  refine ⟨?_, ?_, ?_⟩
  · rw [hStart, hScript, List.getElem?_append_right (Nat.le_refl _), Nat.sub_self]
    rfl
  · have hFails := Item.failsBy_read item.start item.opcode bs
    rwa [← hOperand, ← hContent] at hFails
  · rw [hContent, hOperand, hRest]
    exact Instruction.read_reads item.opcode bs

/-- The offset to which an iterator comes with its next item. -/
theorem calls_position (script : Script) (i : Nat) :
    (Cursor.start script).position + ((script.items.take i).flatMap Item.raw).length =
      (script.items.take i).getLast?.elim 0 Item.stop := by
  rw [length_flatMap_raw (List.take_append_drop i script.items).symm]
  exact Nat.zero_add _

/-- **A script is tiled by its items, and behind it another one begins.** The items lie in
the script one behind the other, and the bytes behind an opcode decide what its item is: an
instruction, or an error, which can only be the last. An iterator answers with the items in
order, each call leading to where the item ends, and with nothing from then on; the iterator
with offsets gives those at which the instructions begin. Behind a script without an error
the items of any other follow, at offsets that its length is added to. -/
theorem items_tile (script : Script) :
    script.Tiled script.items ∧
      (∀ item ∈ script.items,
        let behind := script.drop (item.start + 1)
        script[item.start]? = some item.opcode ∧ item.FailsBy behind ∧
          Instruction.Reads item.opcode behind
            ⟨item.content, item.operand, script.drop item.stop⟩) ∧
      (∀ n, (Cursor.start script).calls Cursor.next n = (List.range n).map fun i =>
        (script.items[i]?, (script.items.take (i + 1)).getLast?.elim 0 Item.stop)) ∧
      (∀ n, (Cursor.start script).calls Cursor.nextIndexed n = (List.range n).map fun i =>
        (script.items[i]?.map Item.indexed,
          (script.items.take (i + 1)).getLast?.elim 0 Item.stop)) ∧
      ((∀ item ∈ script.items, item.content.isOk) → ∀ more : Script,
        items (script ++ more) = script.items ++ more.items.map (Item.shift script.length)) := by
  have hCalls (n : Nat) : (Cursor.start script).calls Cursor.next n = (List.range n).map fun i =>
      (script.items[i]?, (script.items.take (i + 1)).getLast?.elim 0 Item.stop) := by
    rw [Cursor.calls_next]
    refine List.map_congr_left fun i _ => ?_
    rw [← calls_position]
    rfl
  refine ⟨tiled_items script, fun item hMem => reads_of_mem_items hMem, hCalls, ?_,
    items_append_of_ok⟩
  intro n
  rw [Cursor.calls_nextIndexed, hCalls, List.map_map]
  rfl

/-- Behind a script of two instructions stands one whose last push has no length. -/
theorem items_tile_cutOff :
    let script : Script := [0x51, 0x02, 0x01, 0x02]
    let more : Script := [0xab, 0x4d, 0x01]
    (∀ item ∈ script.items, item.content.isOk = true) ∧
      items (script ++ more) = script.items ++ more.items.map (Item.shift 4) ∧
      (items (script ++ more)).map Item.indexed =
        [.ok (0, .op 0x51), .ok (1, .push [0x01, 0x02]), .ok (4, .op 0xab), .error .earlyEnd] := by
  intro script more
  have hOk : ∀ item ∈ script.items, item.content.isOk = true := by decide +kernel
  obtain ⟨-, -, -, -, hAppend⟩ := items_tile script
  exact ⟨hOk, hAppend hOk more, by decide +kernel⟩

end Script

end LegacyScript
