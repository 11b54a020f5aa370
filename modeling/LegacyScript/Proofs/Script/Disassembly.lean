import LegacyScript.Proofs.Script.ShortestPush

/-!
# A script that is written as text and read again

The text of a script can be read just when each of its items has a word of its own: an item
that is an error is written in words that stand for nothing, and so is an opcode without a
mnemonic. What is read are the same instructions in their shortest bytes. So it is never
longer than the script, and it is the script itself just when each push in it is the
shortest.

## Results

* `ofText_toText`            — what is read from the text of a script.
* `exists_ofText_toText_iff` — which scripts can be read from their text.
* `toText_reassembles`       — all of this together.
-/

namespace LegacyScript

-- ---------------------------------------------------------------------------
-- Items without a word of their own
-- ---------------------------------------------------------------------------

namespace Item

variable {item : Item}

/-- Whether an item is an instruction that has a word of its own. -/
def Legible (item : Item) : Prop :=
  ∃ instruction, item.content = .ok instruction ∧ instruction.Named

theorem ofWord_pastEnd : Script.ofWord "<push" = .error (.badToken "<push") :=
  Script.ofWord_of_none (by decide +kernel) (by decide)

theorem ofWord_unknown : Script.ofWord "OP_UNKNOWN" = .error (.badToken "OP_UNKNOWN") :=
  Script.ofWord_of_none (by decide +kernel) (by decide)

/-- An item that has no word of its own is written with a word that stands for nothing. -/
theorem exists_badToken (h : ¬ item.Legible) :
    ∃ word ∈ Text.words item.word, ∃ cause, Script.ofWord word = .error cause := by
  cases hContent : item.content with
  | error cause =>
    have hMem : "<push" ∈ Text.words "<push past end>" := by decide
    refine ⟨"<push", ?_, _, ofWord_pastEnd⟩
    rw [Item.word, hContent]
    exact hMem
  | ok instruction =>
    cases instruction with
    | push data => exact absurd ⟨_, hContent, trivial⟩ h
    | op code =>
      have hName : code.name? = none := by
        cases hName : code.name? with
        | none => rfl
        | some name => exact absurd ⟨_, hContent, by rw [Instruction.Named, hName]; rfl⟩ h
      have hMem : "OP_UNKNOWN" ∈ Text.words "OP_UNKNOWN" := by decide
      refine ⟨"OP_UNKNOWN", ?_, _, ofWord_unknown⟩
      rw [Item.word, hContent]
      dsimp only
      rw [hName]
      exact hMem

theorem legible_iff : item.Legible ↔ item.content.isOk = true ∧
    ∀ code, item.content = .ok (.op code) → code.name?.isSome = true := by
  constructor
  · rintro ⟨instruction, hContent, hNamed⟩
    refine ⟨by rw [hContent]; rfl, fun code hCode => ?_⟩
    have hInstruction : instruction = .op code := Except.ok.inj (hContent.symm.trans hCode)
    rwa [hInstruction] at hNamed
  · rintro ⟨hOk, hNames⟩
    cases hContent : item.content with
    | error cause =>
      rw [hContent] at hOk
      exact absurd hOk Bool.false_ne_true
    | ok instruction =>
      refine ⟨instruction, hContent, ?_⟩
      cases instruction with
      | push data => exact trivial
      | op code => exact hNames code hContent

/-- An item and the instruction that is read from its word. -/
structure Rewrites (item : Item) (instruction : Instruction) : Prop where
  content_eq : item.content = .ok instruction
  writable : instruction.Writable
  named : instruction.Named
  /-- The instruction is written in no more bytes. -/
  length_le : instruction.encode.length ≤ item.raw.length

end Item

-- ---------------------------------------------------------------------------
-- Whole scripts
-- ---------------------------------------------------------------------------

namespace Script

variable {script : Script} {instructions : List Instruction}

theorem exists_rewrites (h : ∀ item ∈ script.items, item.Legible) :
    ∃ instructions, List.Forall₂ Item.Rewrites script.items instructions := by
  refine exists_forall₂_iff.2 fun item hMem => ?_
  obtain ⟨instruction, hContent, hNamed⟩ := h item hMem
  obtain ⟨hWritable, hLength⟩ := writable_of_mem_items hMem hContent
  exact ⟨instruction, hContent, hWritable, hNamed, hLength⟩

theorem writable_of_rewrites (h : List.Forall₂ Item.Rewrites script.items instructions) :
    ∀ instruction ∈ instructions, instruction.Writable ∧ instruction.Named :=
  forall_of_forall₂ h fun _ _ hItem => ⟨hItem.writable, hItem.named⟩

/-- **What is read from the text of a script** are its instructions in their shortest
bytes. -/
theorem ofText_toText (h : List.Forall₂ Item.Rewrites script.items instructions) :
    ofText script.toText = .ok (instructions.flatMap Instruction.encode) := by
  have hWords : script.items.map Item.word = instructions.map Instruction.word :=
    forall₂_iff_map_eq.1 (h.imp fun item instruction hItem => Item.word_of_ok hItem.content_eq)
  rw [toText, hWords]
  exact ofText_intercalate_word (writable_of_rewrites h)

/-- **Which scripts can be read from their text**: those whose items all have a word. -/
theorem exists_ofText_toText_iff :
    (∃ parsed, ofText script.toText = .ok parsed) ↔ ∀ item ∈ script.items, item.Legible := by
  constructor
  · intro hParsed item hMem
    by_contra hNot
    obtain ⟨word, hWord, cause, hError⟩ := Item.exists_badToken hNot
    have hWords : word ∈ Text.words script.toText := by
      rw [toText, Text.words_intercalate, List.mem_flatMap]
      exact ⟨item.word, List.mem_map_of_mem hMem, hWord⟩
    obtain ⟨part, hPart⟩ := exists_ofText_iff.1 hParsed word hWords
    rw [hError] at hPart
    cases hPart
  · intro h
    obtain ⟨instructions, hRewrites⟩ := exists_rewrites h
    exact ⟨_, ofText_toText hRewrites⟩

/-- Reading gives the instructions of the script again. -/
theorem content_items_flatMap_encode
    (h : List.Forall₂ Item.Rewrites script.items instructions) :
    (items (instructions.flatMap Instruction.encode)).map Item.content =
      script.items.map Item.content := by
  have hWritten : DecodesTo (instructions.flatMap Instruction.encode) instructions :=
    decodesTo_flatMap_encode fun instruction hMem => (writable_of_rewrites h _ hMem).1
  have hScript : script.DecodesTo instructions :=
    forall₂_iff_map_eq.1 (h.imp fun item instruction hItem => hItem.content_eq)
  exact hWritten.trans hScript.symm

theorem length_flatMap_encode_le (hOk : ∀ item ∈ script.items, item.content.isOk = true)
    (h : List.Forall₂ Item.Rewrites script.items instructions) :
    (instructions.flatMap Instruction.encode).length ≤ script.length :=
  length_flatMap_encode_le_of_forall₂ hOk (h.imp fun _ _ hItem => hItem.length_le)

/-- Reading gives the script itself just when each push in it is the shortest. -/
theorem flatMap_encode_eq_iff (hOk : ∀ item ∈ script.items, item.content.isOk = true)
    (h : List.Forall₂ Item.Rewrites script.items instructions) :
    instructions.flatMap Instruction.encode = script ↔ ∀ item ∈ script.items, ∀ data,
      item.content = .ok (.push data) → Push.encode? data = .ok item.raw := by
  constructor
  · intro hEq item hMem data hContent
    have hParsed := items_flatMap_encode fun instruction hIn => (writable_of_rewrites h _ hIn).1
    rw [hEq] at hParsed
    obtain ⟨instruction, hInstruction, hRaw⟩ := exists_forall₂_iff.1 ⟨_, hParsed⟩ item hMem
    have hPush : instruction = .push data := Except.ok.inj (hInstruction.symm.trans hContent)
    have hFits : Push.fits data = true := (writable_of_mem_items hMem hContent).1
    rw [Push.encode?, if_pos hFits, hRaw, hPush, Instruction.encode]
  · intro hShortest
    have hRaw : List.Forall₂ (fun item instruction => item.raw = instruction.encode)
        script.items instructions := by
      have hAll := (List.forall₂_and_left _ _).2 ⟨fun item hMem => hMem, h⟩
      refine hAll.imp fun item instruction hItem => ?_
      obtain ⟨hMem, hRewrites⟩ := hItem
      cases instruction with
      | op code => exact raw_of_op hMem hRewrites.content_eq
      | push data =>
        have hPush := hShortest item hMem data hRewrites.content_eq
        have hFits : Push.fits data = true := hRewrites.writable
        rw [Push.encode?, if_pos hFits] at hPush
        exact (Except.ok.inj hPush).symm
    have hBytes : script.items.flatMap Item.raw = instructions.flatMap Instruction.encode := by
      rw [List.flatMap_def, List.flatMap_def, forall₂_iff_map_eq.1 hRaw]
    rw [← hBytes, flatMap_raw_of_ok hOk]

/-- **A script that is written as text and read again.** Reading succeeds just when the
script decodes and each opcode that stands for itself has a mnemonic. What is read has the
same instructions and is not longer, and it is the script itself just when each push in it is
the one that is chosen for its data. -/
theorem toText_reassembles (script : Script) :
    ((∃ parsed, ofText script.toText = .ok parsed) ↔
      ∀ item ∈ script.items, item.content.isOk = true ∧
        ∀ code, item.content = .ok (.op code) → code.name?.isSome = true) ∧
    ∀ parsed, ofText script.toText = .ok parsed →
      parsed.items.map Item.content = script.items.map Item.content ∧
        parsed.length ≤ script.length ∧
        (parsed = script ↔ ∀ item ∈ script.items, ∀ data,
          item.content = .ok (.push data) → Push.encode? data = .ok item.raw) := by
  refine ⟨?_, fun parsed hParsed => ?_⟩
  · rw [exists_ofText_toText_iff]
    exact forall₂_congr fun item hMem => Item.legible_iff
  · have hLegible := exists_ofText_toText_iff.1 ⟨parsed, hParsed⟩
    have hOk : ∀ item ∈ script.items, item.content.isOk = true :=
      fun item hMem => (Item.legible_iff.1 (hLegible item hMem)).1
    obtain ⟨instructions, hRewrites⟩ := exists_rewrites hLegible
    have hText := ofText_toText hRewrites
    obtain rfl : instructions.flatMap Instruction.encode = parsed :=
      Except.ok.inj (hText.symm.trans hParsed)
    exact ⟨content_items_flatMap_encode hRewrites, length_flatMap_encode_le hOk hRewrites,
      flatMap_encode_eq_iff hOk hRewrites⟩

/-- A push with a length behind its opcode is read again as the shorter one. -/
theorem toText_reassembles_shorter :
    let script : Script := [0x4c, 0x01, 0xaa, 0x00, 0xb1]
    let parsed : Script := [0x01, 0xaa, 0x00, 0xb1]
    script.toText = "aa OP_0 OP_NOP2" ∧ ofText script.toText = .ok parsed ∧
      parsed.items.map Item.content = script.items.map Item.content ∧
      parsed.length ≤ script.length ∧
      ¬ ∀ item ∈ script.items, ∀ data,
        item.content = .ok (.push data) → Push.encode? data = .ok item.raw := by
  intro script parsed
  have hText : ofText script.toText = .ok parsed := by decide +kernel
  obtain ⟨-, hParsed⟩ := toText_reassembles script
  obtain ⟨hContents, hLength, hEq⟩ := hParsed parsed hText
  have hNe : parsed ≠ script := by decide
  exact ⟨by decide +kernel, hText, hContents, hLength, fun hShortest => hNe (hEq.2 hShortest)⟩

end Script

end LegacyScript
