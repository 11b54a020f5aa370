import LegacyScript.Proofs.Script.Words
import Mathlib.Algebra.Order.BigOperators.Group.List
import Mathlib.Algebra.Order.Ring.Nat

/-!
# The shortest push

There are up to four ways to announce the same data, one for each number of bytes that the
announcement takes. So the shortest of them is shorter than all others, and with the data
behind it it is the one script that pushes the data and is not longer than necessary.

A push is read back from where it was written, whatever stands in front of it and behind it.
A script whose instructions are written again one by one, each push in its shortest form,
keeps its instructions and does not grow.

## Results

* `Announces.eq_header_or_lt`  — other announcements are longer than the shortest.
* `pushData?_of_fits`, `items_append_encode` — a push is appended, and what is read then.
* `encode_of_decodesTo_push`   — other scripts that push the same data are longer.
* `build?_ofInstruction`, `decodesTo_flatMap_encode`, `length_flatMap_encode_le_of_decodesTo` —
  instructions that are written again.
* `pushes_shortest`            — all of this together.
-/

namespace LegacyScript

/-- The step that writes an instruction: a push takes its shortest form. -/
def BuildStep.ofInstruction : Instruction → BuildStep
  | .push bytes => .data bytes
  | .op code => .opcode code

/-- Whether a script can be decoded and consists of these instructions. -/
def Script.DecodesTo (script : Script) (instructions : List Instruction) : Prop :=
  script.items.map Item.content = instructions.map .ok

-- ---------------------------------------------------------------------------
-- Announcements of the same data
-- ---------------------------------------------------------------------------

theorem Push.eq_of_countedForms {code other : Opcode} {width : Nat}
    (h : (code, width) ∈ Push.countedForms) (hOther : (other, width) ∈ Push.countedForms) :
    code = other := by
  simp only [Push.countedForms, List.mem_cons, Prod.mk.injEq, List.not_mem_nil, or_false]
    at h hOther
  rcases h with ⟨rfl, rfl⟩ | ⟨rfl, rfl⟩ | ⟨rfl, rfl⟩ <;>
    exact (by simpa using hOther : other = _).symm

namespace Announces

variable {code other : Opcode} {width otherWidth : Bytes} {size : Nat}

/-- The number of bytes that an announcement takes decides all of them. -/
theorem eq_of_length_eq (h : Announces code width size) (hOther : Announces other otherWidth size)
    (hLength : width.length = otherWidth.length) : code :: width = other :: otherWidth := by
  generalize hSize : size = same at hOther
  cases h with
  | direct hCode =>
    cases hOther with
    | direct hOtherCode => rw [UInt8.toNat_inj.1 hSize]
    | counted hForm =>
      have hWidth := Push.width_cases hForm
      rw [List.length_nil] at hLength
      omega
  | counted hForm =>
    cases hOther with
    | direct hOtherCode =>
      have hWidth := Push.width_cases hForm
      rw [List.length_nil] at hLength
      omega
    | counted hOtherForm =>
      rw [← hLength] at hOtherForm
      rw [Push.eq_of_countedForms hForm hOtherForm, Bytes.eq_of_toNatLE_eq hLength hSize]

/-- **Other announcements are longer than the shortest.** -/
theorem eq_header_or_lt (h : Announces code width size) :
    code :: width = Push.header size ∨ (Push.header size).length < (code :: width).length := by
  obtain ⟨first, bytes, hHeader, hAnnounces⟩ := Push.header_announces h.size_le
  rcases Nat.lt_or_ge (Push.header size).length (code :: width).length with hLonger | hNot
  · exact .inr hLonger
  · -- it takes at least as many bytes as the shortest, so that both take the same number
    have hLeast := h.length_header_le
    rw [hHeader, List.length_cons] at hLeast hNot
    rw [List.length_cons] at hNot
    rw [hHeader]
    exact .inl (h.eq_of_length_eq hAnnounces (by omega))

end Announces

namespace Item

theorem shift_shift (offset more : Nat) (item : Item) :
    (item.shift offset).shift more = item.shift (more + offset) := by
  rw [shift, shift, shift, Nat.add_assoc, Nat.add_comm offset more]

end Item

namespace Script

variable {script : Script} {instructions : List Instruction} {data : Bytes}

-- ---------------------------------------------------------------------------
-- Scripts that can be decoded
-- ---------------------------------------------------------------------------

theorem isOk_of_decodesTo (h : script.DecodesTo instructions) :
    ∀ item ∈ script.items, item.content.isOk = true := by
  intro item hMem
  have hContent : item.content ∈ instructions.map Except.ok := by
    rw [← h]
    exact List.mem_map_of_mem hMem
  obtain ⟨instruction, -, hOk⟩ := List.mem_map.1 hContent
  rw [← hOk]
  rfl

theorem decodesTo_flatMap_encode (h : ∀ instruction ∈ instructions, instruction.Writable) :
    DecodesTo (instructions.flatMap Instruction.encode) instructions :=
  forall₂_iff_map_eq.1 ((items_flatMap_encode h).imp fun _ _ hItem => hItem.1)

theorem decodesTo_encode (h : Push.fits data = true) :
    DecodesTo (Push.encode data) [.push data] := by
  have hWritable : ∀ instruction ∈ [Instruction.push data], instruction.Writable := by
    intro instruction hMem
    rw [List.mem_singleton.1 hMem]
    exact h
  have hDecodes := decodesTo_flatMap_encode hWritable
  rwa [List.flatMap_singleton] at hDecodes

-- ---------------------------------------------------------------------------
-- Appending a push
-- ---------------------------------------------------------------------------

theorem pushData?_of_fits (script : Script) (h : Push.fits data = true) :
    script.pushData? data = .ok (script ++ Push.encode data) := by
  rw [pushData?, Push.encode?, if_pos h]
  rfl

/-- The item of a push that is all of a script. -/
theorem items_encode (h : Push.fits data = true) :
    ∃ item, items (Push.encode data) = [item] ∧ item.content = .ok (.push data) ∧
      item.start = 0 ∧ item.stop = (Push.encode data).length := by
  obtain ⟨item, hItems, hContent⟩ := List.map_eq_singleton_iff.1 (decodesTo_encode h)
  have hTiled := tiled_items (Push.encode data)
  have hOk := isOk_of_decodesTo (decodesTo_encode h)
  rw [hItems] at hTiled hOk
  exact ⟨item, hItems, hContent, hTiled.start_eq item rfl, hTiled.stop_eq hOk⟩

/-- **What is read where a push was appended**: the instructions in front of it, the push, and
what was read of the bytes behind it before. -/
theorem items_append_encode (hOk : ∀ item ∈ script.items, item.content.isOk = true)
    (h : Push.fits data = true) (rest : Script) :
    ∃ item, item.content = .ok (.push data) ∧ item.start = script.length ∧
      item.stop = (script ++ Push.encode data).length ∧
      items (script ++ Push.encode data ++ rest) = script.items ++
        item :: rest.items.map (Item.shift (script ++ Push.encode data).length) := by
  obtain ⟨item, hItems, hContent, hStart, hStop⟩ := items_encode h
  have hPush := isOk_of_decodesTo (decodesTo_encode h)
  refine ⟨item.shift script.length, hContent, ?_, ?_, ?_⟩
  · rw [Item.shift, hStart, Nat.zero_add]
  · change item.start + script.length + item.raw.length = _
    rw [List.length_append, ← hStop, Item.stop, Nat.add_left_comm, Nat.add_assoc]
  · rw [List.append_assoc, items_append_of_ok hOk, items_append_of_ok hPush, hItems,
      List.singleton_append, List.map_cons, List.map_map, List.length_append]
    congr 2
    exact List.map_congr_left fun other _ => Item.shift_shift _ _ other

-- ---------------------------------------------------------------------------
-- Other ways to write a push
-- ---------------------------------------------------------------------------

/-- **Other scripts that push the same data are longer** than the shortest push. -/
theorem encode_of_decodesTo_push (h : script.DecodesTo [.push data]) :
    Push.fits data = true ∧
      (script ≠ Push.encode data → (Push.encode data).length < script.length) := by
  obtain ⟨item, hItems, hContent⟩ := List.map_eq_singleton_iff.1 h
  have hMem : item ∈ script.items := by
    rw [hItems]
    exact List.mem_singleton_self item
  have hScript : item.raw = script := by
    have hBytes := flatMap_raw_of_ok (isOk_of_decodesTo h)
    rwa [hItems, List.flatMap_singleton] at hBytes
  refine ⟨(writable_of_mem_items hMem hContent).1, fun hNe => ?_⟩
  obtain ⟨-, -, hReads⟩ := reads_of_mem_items hMem
  rw [hContent] at hReads
  rw [Item.raw] at hScript
  generalize item.operand = operand, script.drop (item.start + 1) = behind,
    script.drop item.stop = rest at hReads hScript
  cases hReads with
  | @push width _ _ hAnnounces =>
    rw [← hScript, ← List.cons_append, Push.encode] at hNe ⊢
    rw [List.length_append, List.length_append]
    refine Nat.add_lt_add_right (hAnnounces.eq_header_or_lt.resolve_left fun hEq => ?_) _
    exact hNe (by rw [hEq])

-- ---------------------------------------------------------------------------
-- Instructions that are written again
-- ---------------------------------------------------------------------------

theorem writable_of_decodesTo (h : script.DecodesTo instructions) :
    ∀ instruction ∈ instructions, instruction.Writable := by
  intro instruction hMem
  have hContent : Except.ok instruction ∈ script.items.map Item.content := by
    rw [h]
    exact List.mem_map_of_mem hMem
  obtain ⟨item, hItem, hOk⟩ := List.mem_map.1 hContent
  exact (writable_of_mem_items hItem hOk).1

theorem exists_decodesTo (hOk : ∀ item ∈ script.items, item.content.isOk = true) :
    ∃ instructions, script.DecodesTo instructions := by
  have hEach : ∀ item ∈ script.items, ∃ instruction, item.content = .ok instruction := by
    intro item hMem
    cases hContent : item.content with
    | error cause => exact absurd (hOk item hMem) (by rw [hContent]; exact Bool.false_ne_true)
    | ok instruction => exact ⟨instruction, rfl⟩
  obtain ⟨instructions, hContents⟩ := exists_forall₂_iff.2 hEach
  exact ⟨instructions, forall₂_iff_map_eq.1 hContents⟩

theorem bytes?_ofInstruction {instruction : Instruction} (h : instruction.Writable) :
    (BuildStep.ofInstruction instruction).bytes? = .ok instruction.encode := by
  cases instruction with
  | op code => rfl
  | push data => exact if_pos h

/-- Steps append their bytes one behind the other. -/
theorem foldlM_append?_of_bytes {steps : List BuildStep} {pieces : List Bytes}
    (h : List.Forall₂ (fun step piece => step.bytes? = .ok piece) steps pieces) (script : Script) :
    steps.foldlM BuildStep.append? script = .ok (script ++ pieces.flatten) := by
  induction h generalizing script with
  | nil =>
    rw [List.flatten_nil, List.append_nil]
    rfl
  | @cons step piece steps pieces hStep _ ih =>
    have hFirst : BuildStep.append? script step = .ok (script ++ piece) := by
      rw [BuildStep.append?, hStep]
      rfl
    rw [List.foldlM_cons, hFirst, List.flatten_cons, ← List.append_assoc]
    exact ih _

theorem build?_of_bytes {steps : List BuildStep} {pieces : List Bytes}
    (h : List.Forall₂ (fun step piece => step.bytes? = .ok piece) steps pieces) :
    build? steps = .ok pieces.flatten :=
  foldlM_append?_of_bytes h []

/-- **Instructions that can be written build a script.** -/
theorem build?_ofInstruction (h : ∀ instruction ∈ instructions, instruction.Writable) :
    build? (instructions.map BuildStep.ofInstruction) =
      .ok (instructions.flatMap Instruction.encode) := by
  refine build?_of_bytes (forall₂_iff_map_eq.2 ?_)
  rw [List.map_map, List.map_map]
  exact List.map_congr_left fun instruction hMem => bytes?_ofInstruction (h instruction hMem)

/-- Where no instruction takes more bytes than its item did, neither do all of them. -/
theorem length_flatMap_encode_le_of_forall₂
    (hOk : ∀ item ∈ script.items, item.content.isOk = true)
    (h : List.Forall₂ (fun item instruction => instruction.encode.length ≤ item.raw.length)
      script.items instructions) :
    (instructions.flatMap Instruction.encode).length ≤ script.length := by
  have hBytes : script.length = (script.items.flatMap Item.raw).length := by
    rw [flatMap_raw_of_ok hOk]
  rw [hBytes, List.length_flatMap, List.length_flatMap]
  refine List.Forall₂.sum_le_sum ?_
  rw [List.forall₂_map_left_iff, List.forall₂_map_right_iff]
  exact h.flip

/-- **A script does not grow when its instructions are written again.** -/
theorem length_flatMap_encode_le_of_decodesTo (h : script.DecodesTo instructions) :
    (instructions.flatMap Instruction.encode).length ≤ script.length := by
  have hItems : List.Forall₂ (fun item instruction => item ∈ script.items ∧
      item.content = .ok instruction) script.items instructions :=
    (List.forall₂_and_left _ _).2 ⟨fun item hMem => hMem, forall₂_iff_map_eq.2 h⟩
  refine length_flatMap_encode_le_of_forall₂ (isOk_of_decodesTo h) (hItems.imp ?_)
  intro item instruction hItem
  obtain ⟨hMem, hContent⟩ := hItem
  exact (writable_of_mem_items hMem hContent).2

/-- **Pushes take their shortest form, and are read back.** A push of up to 4294967295 bytes
can be appended to any script that decodes, and whatever is put behind it, it is read there,
between the items that were there before. Of all scripts that do nothing but push some data
the one that is written is shorter than each other. And a script that decodes can be built
again from its instructions: the result has the same ones and is not longer. -/
theorem pushes_shortest :
    (∀ (out rest : Script) (data : Bytes), data.length ≤ 0xffffffff →
      (∀ item ∈ out.items, item.content.isOk = true) →
      ∃ (written : Script) (item : Item), out.pushData? data = .ok written ∧
        item.content = .ok (.push data) ∧ item.start = out.length ∧ item.stop = written.length ∧
        items (written ++ rest) =
          out.items ++ item :: rest.items.map (Item.shift written.length)) ∧
    (∀ (script : Script) (data : Bytes), script.DecodesTo [.push data] →
      ∃ shortest : Script, pushData? [] data = .ok shortest ∧ shortest.DecodesTo [.push data] ∧
        (script ≠ shortest → shortest.length < script.length)) ∧
    ∀ script : Script, (∀ item ∈ script.items, item.content.isOk = true) →
      ∃ (instructions : List Instruction) (built : Script), script.DecodesTo instructions ∧
        build? (instructions.map BuildStep.ofInstruction) = .ok built ∧
        built.DecodesTo instructions ∧ built.length ≤ script.length := by
  refine ⟨?_, ?_, ?_⟩
  · intro out rest data hSize hOk
    have hFits : Push.fits data = true := decide_eq_true hSize
    obtain ⟨item, hContent, hStart, hStop, hItems⟩ := items_append_encode hOk hFits rest
    exact ⟨_, item, pushData?_of_fits out hFits, hContent, hStart, hStop, hItems⟩
  · intro script data h
    obtain ⟨hFits, hShorter⟩ := encode_of_decodesTo_push h
    exact ⟨_, pushData?_of_fits [] hFits, decodesTo_encode hFits, hShorter⟩
  · intro script hOk
    obtain ⟨instructions, hDecodes⟩ := exists_decodesTo hOk
    have hWritable := writable_of_decodesTo hDecodes
    exact ⟨instructions, _, hDecodes, build?_ofInstruction hWritable,
      decodesTo_flatMap_encode hWritable, length_flatMap_encode_le_of_decodesTo hDecodes⟩

/-- Two bytes of data with a length of two bytes in front of them take two bytes more than
necessary. Data of 76 bytes is the first whose number of bytes is no opcode that pushes it. -/
theorem pushes_shortest_counted :
    let script : Script := [0x4d, 0x02, 0x00, 0xaa, 0xbb]
    let out : Script := [0x51]
    let data : Bytes := List.replicate 76 0x6a
    (data.length ≤ 0xffffffff ∧ (∀ item ∈ out.items, item.content.isOk = true) ∧
      ∃ (written : Script) (item : Item), out.pushData? data = .ok written ∧
        item.content = .ok (.push data) ∧ item.start = 1 ∧ item.stop = written.length) ∧
    (script.DecodesTo [.push [0xaa, 0xbb]] ∧ ∃ shortest : Script,
      pushData? [] [0xaa, 0xbb] = .ok shortest ∧ script ≠ shortest ∧
        shortest.length < script.length) ∧
    (∀ item ∈ script.items, item.content.isOk = true) ∧
      ∃ (instructions : List Instruction) (built : Script), script.DecodesTo instructions ∧
        build? (instructions.map BuildStep.ofInstruction) = .ok built ∧
        built.DecodesTo instructions ∧ built.length ≤ script.length := by
  intro script out data
  obtain ⟨hAppend, hOthers, hAgain⟩ := pushes_shortest
  have hSize : data.length ≤ 0xffffffff := by decide
  have hOut : ∀ item ∈ out.items, item.content.isOk = true := by decide +kernel
  have hDecodes : script.DecodesTo [.push [0xaa, 0xbb]] := by
    unfold DecodesTo
    decide +kernel
  have hOk : ∀ item ∈ script.items, item.content.isOk = true := by decide +kernel
  obtain ⟨written, item, hWritten, hContent, hStart, hStop, -⟩ := hAppend out [] data hSize hOut
  obtain ⟨shortest, hShortest, -, hLonger⟩ := hOthers script _ hDecodes
  have hNe : script ≠ shortest := by
    rintro rfl
    revert hShortest
    decide +kernel
  exact ⟨⟨hSize, hOut, written, item, hWritten, hContent, hStart, hStop⟩,
    ⟨hDecodes, shortest, hShortest, hNe, hLonger hNe⟩, hOk, hAgain script hOk⟩

end Script

end LegacyScript
