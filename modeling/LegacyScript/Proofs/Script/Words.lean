import LegacyScript.Proofs.Opcode.Names
import LegacyScript.Proofs.Script.Encoding
import LegacyScript.Proofs.Text.Hex
import LegacyScript.Proofs.Text.Words
import LegacyScript.Script.Text

/-!
# Scripts word by word

A text is read word by word, and the first word that stands for nothing is the error. An
instruction has one word, which stands for its shortest bytes. So a text that is made of the
words of instructions is read as the script that is made of their shortest bytes.

## Results

* `ofText_eq_ok_iff`, `ofText_eq_error_iff` — how a text is read.
* `ofWord_word`                             — the word of an instruction.
* `ofText_intercalate_word`                 — the words of a list of instructions.
-/

namespace LegacyScript

-- ---------------------------------------------------------------------------
-- One after the other
-- ---------------------------------------------------------------------------

section Sequence

variable {α β ε : Type} {f : α → Except ε β} {a : α} {l : List α}

theorem mapM_cons_of_error {e : ε} (h : f a = .error e) : (a :: l).mapM f = .error e := by
  rw [List.mapM_cons, h]
  rfl

theorem mapM_cons_of_ok {b : β} (h : f a = .ok b) :
    (a :: l).mapM f = (l.mapM f).map (b :: ·) := by
  rw [List.mapM_cons, h]
  cases l.mapM f with
  | error e => rfl
  | ok bs => rfl

theorem mapM_eq_ok_iff {bs : List β} :
    l.mapM f = .ok bs ↔ List.Forall₂ (fun a b => f a = .ok b) l bs := by
  induction l generalizing bs with
  | nil => simp [pure, Except.pure, eq_comm]
  | cons a l ih =>
    rw [List.forall₂_cons_left_iff]
    cases hHead : f a with
    | error e =>
      rw [mapM_cons_of_error hHead]
      simp
    | ok b =>
      rw [mapM_cons_of_ok hHead]
      constructor
      · intro h
        obtain ⟨tail, hTail, rfl⟩ : ∃ tail, l.mapM f = .ok tail ∧ b :: tail = bs := by
          cases hTail : l.mapM f with
          | error e => simp [hTail, Except.map] at h
          | ok tail => exact ⟨tail, rfl, by simpa [hTail, Except.map] using h⟩
        exact ⟨b, tail, rfl, ih.1 hTail, rfl⟩
      · rintro ⟨b', tail, hb, hTail, rfl⟩
        obtain rfl : b = b' := Except.ok.inj hb
        rw [ih.2 hTail]
        rfl

/-- The first failure is that of the whole. -/
theorem mapM_eq_error_iff {e : ε} :
    l.mapM f = .error e ↔ ∃ front a rest, l = front ++ a :: rest ∧
      (∀ x ∈ front, ∃ b, f x = .ok b) ∧ f a = .error e := by
  induction l with
  | nil => simp [pure, Except.pure]
  | cons first l ih =>
    constructor
    · intro h
      cases hHead : f first with
      | error cause =>
        rw [mapM_cons_of_error hHead] at h
        obtain rfl : cause = e := Except.error.inj h
        exact ⟨[], first, l, rfl, by simp, hHead⟩
      | ok b =>
        rw [mapM_cons_of_ok hHead] at h
        have hTail : l.mapM f = .error e := by
          cases hTail : l.mapM f with
          | error cause => simpa [hTail, Except.map] using h
          | ok tail => simp [hTail, Except.map] at h
        obtain ⟨front, a, rest, rfl, hFront, hError⟩ := ih.1 hTail
        refine ⟨first :: front, a, rest, rfl, ?_, hError⟩
        intro x hx
        rcases List.mem_cons.1 hx with rfl | hx
        · exact ⟨b, hHead⟩
        · exact hFront x hx
    · rintro ⟨front, a, rest, hSplit, hFront, hError⟩
      cases front with
      | nil =>
        obtain ⟨rfl, rfl⟩ := List.cons.inj hSplit
        exact mapM_cons_of_error hError
      | cons x front =>
        obtain ⟨rfl, hRest⟩ := List.cons.inj hSplit
        obtain ⟨b, hHead⟩ := hFront _ List.mem_cons_self
        have hTail := ih.2 ⟨front, a, rest, hRest,
          fun x hx => hFront x (List.mem_cons_of_mem _ hx), hError⟩
        rw [mapM_cons_of_ok hHead, hTail]
        rfl

theorem exists_forall₂_iff {R : α → β → Prop} :
    (∃ bs, List.Forall₂ R l bs) ↔ ∀ a ∈ l, ∃ b, R a b := by
  induction l with
  | nil => simp
  | cons a l ih =>
    simp only [List.forall₂_cons_left_iff, List.forall_mem_cons, ← ih]
    constructor
    · rintro ⟨-, b, bs, hHead, hTail, rfl⟩
      exact ⟨⟨b, hHead⟩, bs, hTail⟩
    · rintro ⟨⟨b, hHead⟩, bs, hTail⟩
      exact ⟨b :: bs, b, bs, hHead, hTail, rfl⟩

theorem forall_of_forall₂ {R : α → β → Prop} {P : β → Prop} {bs : List β}
    (h : List.Forall₂ R l bs) (hImp : ∀ a b, R a b → P b) : ∀ b ∈ bs, P b := by
  intro b hMem
  obtain ⟨a, hPair⟩ := exists_forall₂_iff.1 ⟨l, h.flip⟩ b hMem
  exact hImp a b hPair

theorem forall₂_iff_map_eq {γ : Type} {g : α → γ} {h : β → γ} {bs : List β} :
    List.Forall₂ (fun a b => g a = h b) l bs ↔ l.map g = bs.map h := by
  rw [← List.forall₂_eq_eq_eq, List.forall₂_map_left_iff, List.forall₂_map_right_iff]

theorem forall₂_comp {γ : Type} {R : α → β → Prop} {S : β → γ → Prop} {bs : List β}
    {cs : List γ} (hLeft : List.Forall₂ R l bs) (hRight : List.Forall₂ S bs cs) :
    List.Forall₂ (fun a c => ∃ b, R a b ∧ S b c) l cs := by
  induction hLeft generalizing cs with
  | nil =>
    cases hRight
    exact .nil
  | cons hHead hTail ih =>
    cases hRight with
    | cons hNext hRest => exact .cons ⟨_, hHead, hNext⟩ (ih hRest)

end Sequence

namespace Script

variable {text : String} {script : Script}

theorem ofText_eq_ok_iff : ofText text = .ok script ↔
    ∃ parts, List.Forall₂ (fun word part => ofWord word = .ok part) (Text.words text) parts ∧
      parts.flatten = script := by
  unfold ofText
  simp only [← mapM_eq_ok_iff]
  cases (Text.words text).mapM ofWord with
  | error cause => simp [Except.map]
  | ok parts => simp [Except.map]

/-- **The first word that stands for nothing is the error.** -/
theorem ofText_eq_error_iff {cause : TextError} : ofText text = .error cause ↔
    ∃ front word rest, Text.words text = front ++ word :: rest ∧
      (∀ other ∈ front, ∃ part, ofWord other = .ok part) ∧ ofWord word = .error cause := by
  rw [← mapM_eq_error_iff, ofText]
  cases (Text.words text).mapM ofWord with
  | error other => simp [Except.map]
  | ok parts => simp [Except.map]

/-- A text is read just when each of its words is. -/
theorem exists_ofText_iff : (∃ script, ofText text = .ok script) ↔
    ∀ word ∈ Text.words text, ∃ part, ofWord word = .ok part := by
  rw [← exists_forall₂_iff]
  constructor
  · rintro ⟨script, h⟩
    obtain ⟨parts, hParts, -⟩ := ofText_eq_ok_iff.1 h
    exact ⟨parts, hParts⟩
  · rintro ⟨parts, hParts⟩
    exact ⟨parts.flatten, ofText_eq_ok_iff.2 ⟨parts, hParts, rfl⟩⟩

end Script

-- ---------------------------------------------------------------------------
-- The word of an instruction
-- ---------------------------------------------------------------------------

namespace Script

variable {word : String} {code : Opcode} {data : Bytes}

theorem ofWord_of_name (h : Opcode.ofName? word = some code) : ofWord word = .ok [code] := by
  rw [ofWord, h]

theorem ofWord_of_hex (hName : Opcode.ofName? word = none)
    (hData : Text.Hex.decode? word.toList = some data) :
    ofWord word = (Push.encode? data).mapError .push := by
  rw [ofWord, hName]
  dsimp only
  rw [hData]

theorem ofWord_of_none (hName : Opcode.ofName? word = none)
    (hData : Text.Hex.decode? word.toList = none) : ofWord word = .error (.badToken word) := by
  rw [ofWord, hName]
  dsimp only
  rw [hData]

/-- A word in hexadecimal stands for the shortest push. -/
theorem ofWord_encode (hFits : Push.fits data = true) :
    ofWord (Text.Hex.encode data) = .ok (Push.encode data) := by
  have hName := Opcode.ofName?_of_digits (Text.Hex.isDigit_of_mem_encode data)
  have hData := Text.Hex.decode_toList_encode data
  rw [ofWord_of_hex hName hData, Push.encode?, if_pos hFits]
  rfl

end Script

namespace Instruction

/-- The word for an instruction. -/
def word : Instruction → String
  | .push [] => "OP_0"
  | .push data => Text.Hex.encode data
  | .op code => code.name?.getD "OP_UNKNOWN"

/-- Whether an instruction has a word of its own: an opcode that stands for itself has to
have a mnemonic. -/
def Named : Instruction → Prop
  | .push _ => True
  | .op code => code.name?.isSome = true

end Instruction

theorem Item.word_of_ok {item : Item} {instruction : Instruction}
    (h : item.content = .ok instruction) : item.word = instruction.word := by
  rw [Item.word, h]
  cases instruction with
  | op code => rfl
  | push data =>
    cases data with
    | nil => rfl
    | cons b data => rfl

theorem Push.encode_nil : Push.encode [] = [0x00] := by
  decide

namespace Instruction

variable {instruction : Instruction}

theorem word_push {data : Bytes} (h : data ≠ []) : word (.push data) = Text.Hex.encode data := by
  cases data with
  | nil => exact absurd rfl h
  | cons b data => rfl

/-- **The word of an instruction** stands for its shortest bytes. -/
theorem ofWord_word (hWritable : instruction.Writable) (hNamed : instruction.Named) :
    Script.ofWord instruction.word = .ok instruction.encode ∧ Text.IsWord instruction.word := by
  cases instruction with
  | op code =>
    obtain ⟨name, hName⟩ := Option.isSome_iff_exists.1 hNamed
    rw [word, hName]
    exact ⟨Script.ofWord_of_name (Opcode.ofName?_of_name? hName), Opcode.isWord_of_name? hName⟩
  | push data =>
    cases data with
    | nil =>
      -- without data there are no digits; the word is the mnemonic of the opcode 0x00
      have hName : Opcode.name? 0x00 = some "OP_0" := rfl
      refine ⟨?_, Opcode.isWord_of_name? hName⟩
      rw [word, encode, Push.encode_nil]
      exact Script.ofWord_of_name (Opcode.ofName?_of_name? hName)
    | cons b data =>
      exact ⟨Script.ofWord_encode hWritable, Text.Hex.isWord_encode (List.cons_ne_nil _ _)⟩

end Instruction

/-- **The words of a list of instructions** make up a text that is read as their shortest
bytes. -/
theorem Script.ofText_intercalate_word {instructions : List Instruction}
    (h : ∀ instruction ∈ instructions, instruction.Writable ∧ instruction.Named) :
    ofText (" ".intercalate (instructions.map Instruction.word)) =
      .ok (instructions.flatMap Instruction.encode) := by
  have hWords : Text.words (" ".intercalate (instructions.map Instruction.word)) =
      instructions.map Instruction.word := by
    refine Text.words_intercalate_of_isWord fun word hWord => ?_
    obtain ⟨instruction, hMem, rfl⟩ := List.mem_map.1 hWord
    exact (Instruction.ofWord_word (h _ hMem).1 (h _ hMem).2).2
  refine ofText_eq_ok_iff.2 ⟨instructions.map Instruction.encode, ?_, rfl⟩
  rw [hWords, List.forall₂_map_left_iff, List.forall₂_map_right_iff, List.forall₂_same]
  exact fun instruction hMem => (Instruction.ofWord_word (h _ hMem).1 (h _ hMem).2).1

end LegacyScript
