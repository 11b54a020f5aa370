import LegacyScript.Proofs.Script.Tiling

/-!
# Scripts by their segments

What a script means does not depend on where its items begin, and what it consists of does
not either. A segment is what an item means together with its bytes: those of the
instruction, or, where the script cannot be decoded any further, all that are left. The
bytes of the segments make up the script.

Whoever puts scripts together from instructions has to know that they are read as they were
before. Bytes that are a single instruction (`Single`) are read as that instruction whatever
stands behind them, so that a row of them is read one by one, and then what follows
(`segments_flatMap`).

## Results

* `flatMap_segments` — a script is the bytes of its segments.
* `segments_flatMap` — a row of instructions, with other bytes behind it.
* `exists_row`       — every script is such a row, with bytes behind it that cannot be decoded.
-/

namespace LegacyScript

/-- The bytes of an item: its own, or all that are left where decoding ends with it. -/
def Item.extent (script : Script) (item : Item) : Bytes :=
  if item.content.isOk then item.raw else script.drop item.start

namespace Script

/-- What a piece of a script means, with its bytes. -/
abbrev Segment := Except DecodeError Instruction × Bytes

/-- What the items of a script mean, each with its bytes. -/
def segments (script : Script) : List Segment :=
  script.items.map fun item => (item.content, item.extent script)

/-- Bytes that are an instruction and nothing else. -/
structure Single (segment : Segment) : Prop where
  isOk : segment.1.isOk = true
  segments_eq : segments segment.2 = [segment]

variable {script : Script} {item : Item} {segment : Segment}

theorem extent_of_ok (hOk : item.content.isOk = true) : item.extent script = item.raw := by
  rw [Item.extent, if_pos hOk]

theorem extent_of_not_ok (hOk : item.content.isOk = false) :
    item.extent script = script.drop item.start := by
  rw [Item.extent, hOk]
  rfl

/-- Behind a front, an item stands for the bytes that it stands for on its own. -/
theorem extent_shift (front script : Script) (item : Item) :
    (item.shift front.length).extent (front ++ script) = item.extent script := by
  cases hItem : item.content.isOk with
  | true =>
    have hShift : (item.shift front.length).content.isOk = true := hItem
    rw [extent_of_ok hItem, extent_of_ok hShift]
    rfl
  | false =>
    have hShift : (item.shift front.length).content.isOk = false := hItem
    rw [extent_of_not_ok hItem, extent_of_not_ok hShift, Item.shift, Nat.add_comm,
      List.drop_length_add_append]

theorem segments_nil : segments [] = [] := by
  rw [segments, items, Cursor.items_eq_nil_iff.2 (.inr rfl)]
  rfl

-- ---------------------------------------------------------------------------
-- All bytes of a script
-- ---------------------------------------------------------------------------

/-- The items are instructions, or all but the last are. -/
theorem items_cases (script : Script) :
    (∀ item ∈ script.items, item.content.isOk = true) ∨
      ∃ front last, script.items = front ++ [last] ∧
        (∀ item ∈ front, item.content.isOk = true) ∧ last.content.isOk = false := by
  by_cases hAll : ∀ item ∈ script.items, item.content.isOk = true
  · exact .inl hAll
  · push Not at hAll
    obtain ⟨last, hMem, hLast⟩ := hAll
    obtain ⟨front, rest, hItems⟩ := List.append_of_mem hMem
    have hBad : last.content.isOk = false := Bool.eq_false_iff.2 hLast
    obtain rfl := (tiled_items script).error_last front last rest hItems hBad
    refine .inr ⟨front, last, hItems, ?_, hBad⟩
    intro item hFront
    by_contra hItem
    -- an error in front would be the last item as well
    obtain ⟨before, between, rfl⟩ := List.append_of_mem hFront
    rw [List.append_assoc, List.cons_append] at hItems
    have hNone := (tiled_items script).error_last before item (between ++ [last]) hItems
      (Bool.eq_false_iff.2 hItem)
    exact List.append_ne_nil_of_right_ne_nil between (List.cons_ne_nil last []) hNone

/-- **A script is the bytes of its segments**, one behind the other. -/
theorem flatMap_segments (script : Script) : script.segments.flatMap Prod.snd = script := by
  rw [segments, List.flatMap_map]
  rcases items_cases script with hAll | ⟨front, last, hItems, hFront, hLast⟩
  · rw [List.flatMap_congr fun item hMem => extent_of_ok (hAll item hMem)]
    exact flatMap_raw_of_ok hAll
  · obtain ⟨bs, hScript, hStart, -⟩ := eq_append_of_items hItems
    rw [hItems, List.flatMap_append, List.flatMap_singleton,
      List.flatMap_congr fun item hMem => extent_of_ok (hFront item hMem), extent_of_not_ok hLast,
      hStart]
    exact List.prefix_iff_eq_append.1 ⟨_, hScript.symm⟩

-- ---------------------------------------------------------------------------
-- Rows of instructions
-- ---------------------------------------------------------------------------

/-- Behind a script that can be decoded, another one is read as it is on its own. -/
theorem segments_append_of_ok (hOk : ∀ item ∈ script.items, item.content.isOk = true)
    (more : Script) : segments (script ++ more) = segments script ++ segments more := by
  rw [segments, items_append_of_ok hOk, List.map_append, List.map_map, segments, segments]
  congr 1
  · refine List.map_congr_left fun item hMem => ?_
    rw [extent_of_ok (hOk item hMem), extent_of_ok (hOk item hMem)]
  · refine List.map_congr_left fun item _ => ?_
    rw [Function.comp_apply, extent_shift]
    rfl

theorem Single.items_ok (h : Single segment) :
    ∀ item ∈ items segment.2, item.content.isOk = true := by
  intro item hMem
  have hSegment : (item.content, item.extent segment.2) ∈ segments segment.2 :=
    List.mem_map_of_mem hMem
  rw [h.segments_eq, List.mem_singleton] at hSegment
  have hContent : item.content = segment.1 := congrArg Prod.fst hSegment
  rw [hContent]
  exact h.isOk

theorem single_of_read {code : Opcode} {operand : Bytes} {content : Except DecodeError Instruction}
    (hOk : content.isOk = true)
    (hRead : Instruction.read code operand = ⟨content, operand, []⟩) :
    Single (content, code :: operand) where
  isOk := hOk
  segments_eq := by
    have hNext := Cursor.next_of_cons 0 code operand
    rw [hRead] at hNext
    have hItems : items (code :: operand) = [⟨0, code, operand, content⟩] := by
      rw [items, Cursor.start, Cursor.items_of_next_eq_some hNext,
        Cursor.items_eq_nil_iff.2 (.inr rfl)]
    rw [segments, hItems, List.map_singleton, extent_of_ok hOk, Item.raw]

/-- Where decoding fails, all bytes belong to the failure. -/
theorem segments_of_read {code : Opcode} {bs : Bytes}
    (hError : (Instruction.read code bs).content.isOk = false) :
    segments (code :: bs) = [((Instruction.read code bs).content, code :: bs)] := by
  have hNext := Cursor.next_of_cons 0 code bs
  rw [hError] at hNext
  rw [segments, items, Cursor.start, Cursor.items_of_next_eq_some hNext,
    Cursor.items_eq_nil_iff.2 (.inl rfl), List.map_singleton, Item.extent, hError]
  rfl

/-- An instruction of a script is all that is read from its own bytes. -/
theorem single_raw (h : item ∈ script.items) (hOk : item.content.isOk = true) :
    Single (item.content, item.raw) := by
  obtain ⟨-, -, hReads⟩ := reads_of_mem_items h
  have hRead := Instruction.read_operand_append hReads hOk []
  rw [List.append_nil] at hRead
  exact single_of_read hOk hRead

/-- **Instructions that are laid one behind the other are read one by one**, and behind them
what is read from the bytes that follow. -/
theorem segments_flatMap {row : List Segment} (hRow : ∀ segment ∈ row, Single segment)
    (tail : Script) : segments (row.flatMap Prod.snd ++ tail) = row ++ segments tail := by
  induction row with
  | nil => rfl
  | cons segment row ih =>
    have hFirst := hRow segment List.mem_cons_self
    have hBehind := ih fun other hMem => hRow other (List.mem_cons_of_mem _ hMem)
    rw [List.flatMap_cons, List.append_assoc, segments_append_of_ok hFirst.items_ok,
      hFirst.segments_eq, hBehind]
    rfl

theorem segments_flatMap_self {row : List Segment} (hRow : ∀ segment ∈ row, Single segment) :
    segments (row.flatMap Prod.snd) = row := by
  have h := segments_flatMap hRow []
  rwa [List.append_nil, segments_nil, List.append_nil] at h

theorem single_of_mem_segments (hOk : ∀ item ∈ script.items, item.content.isOk = true) :
    ∀ segment ∈ script.segments, Single segment := by
  intro segment hMem
  obtain ⟨item, hItem, rfl⟩ := List.mem_map.1 hMem
  rw [extent_of_ok (hOk item hItem)]
  exact single_raw hItem (hOk item hItem)

/-- **Every script is a row of instructions**, with bytes behind it that cannot be decoded. -/
theorem exists_row (script : Script) : ∃ (row : List Segment) (tail : Script),
    script.segments = row ++ tail.segments ∧ (∀ segment ∈ row, Single segment) ∧
      ∀ segment ∈ tail.segments, segment.1.isOk = false := by
  rcases items_cases script with hAll | ⟨front, last, hItems, hFront, hLast⟩
  · refine ⟨script.segments, [], ?_, single_of_mem_segments hAll, ?_⟩
    · rw [segments_nil, List.append_nil]
    · rw [segments_nil]
      exact nofun
  · obtain ⟨bs, hScript, hItem, -⟩ := Cursor.items_split hItems
    obtain ⟨-, -, hStart, -⟩ := eq_append_of_items hItems
    change script = _ at hScript
    have hTail : script.drop last.start = last.opcode :: bs := by
      rw [hStart, hScript, List.drop_left]
    have hContent : last.content = (Instruction.read last.opcode bs).content :=
      congrArg Item.content hItem
    have hSegments : segments (last.opcode :: bs) = [(last.content, last.opcode :: bs)] := by
      rw [segments_of_read (hContent ▸ hLast), hContent]
    refine ⟨front.map fun item => (item.content, item.raw), last.opcode :: bs, ?_, ?_, ?_⟩
    · rw [hSegments, segments, hItems, List.map_append, List.map_singleton,
        extent_of_not_ok hLast, hTail]
      congr 1
      refine List.map_congr_left fun item hMem => ?_
      rw [extent_of_ok (hFront item hMem)]
    · intro segment hMem
      obtain ⟨item, hIn, rfl⟩ := List.mem_map.1 hMem
      exact single_raw (hItems ▸ List.mem_append_left _ hIn) (hFront item hIn)
    · rw [hSegments]
      intro segment hMem
      rw [List.mem_singleton.1 hMem]
      exact hLast

end Script

end LegacyScript
