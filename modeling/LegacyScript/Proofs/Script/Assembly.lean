import LegacyScript.Proofs.Script.Words

/-!
# A text that is read as a script and written again

A text can be read just when each of its words is a token: a mnemonic or bytes in
hexadecimal, not more than can be pushed. The first word that is none is the error.

A token stands for one instruction, unless it is one of the three opcodes behind which a
length stands and which would take bytes from the tokens behind them. So the script has one
instruction for each token, and it is written as the tokens themselves, but for the second
spellings of mnemonics, the case of digits, and blanks.

## Results

* `exists_ofWord_iff`, `ofWord_eq_error_iff` — which words are read.
* `exists_assembles`                         — the instruction of a token.
* `ofText_assembles`                         — all of this for a text.
* `ofText_tooLong`                           — a text of tokens that is not read.
-/

namespace LegacyScript.Script

-- ---------------------------------------------------------------------------
-- Tokens
-- ---------------------------------------------------------------------------

/-- Whether a word is made of digits, two for each byte. -/
def IsHex (word : String) : Prop :=
  word.length % 2 = 0 ∧ ∀ c ∈ word.toList, Text.Hex.IsDigit c

-- over the characters of the word; there is also an instance over all characters
instance : DecidablePred IsHex := fun word =>
  have : Decidable (∀ c ∈ word.toList, Text.Hex.IsDigit c) := List.decidableBAll _ _
  inferInstanceAs (Decidable (_ ∧ _))

/-- Whether a word is a mnemonic, a second spelling of one, or bytes in hexadecimal. -/
def IsToken (word : String) : Prop :=
  Opcode.IsMnemonic word ∨ IsHex word

/-- Whether a word stands for more bytes than can be pushed: for four gibibytes or more. -/
def IsTooLong (word : String) : Prop :=
  IsHex word ∧ 2 ^ 33 ≤ word.length

/-- The instruction that a word stands for. -/
inductive StandsFor (word : String) : Instruction → Prop
  /-- Bytes in hexadecimal stand for their push. -/
  | data {bytes} (h : Text.Hex.decode? word.toList = some bytes) : StandsFor word (.push bytes)
  /-- The opcode 0x00 pushes the empty data. -/
  | empty (h : Opcode.ofName? word = some 0x00) : StandsFor word (.push [])
  /-- A mnemonic stands for its opcode. -/
  | op {code} (h : Opcode.ofName? word = some code) (hCode : code ≠ 0x00) :
      StandsFor word (.op code)

/-- How a token is written: a mnemonic in its first spelling, digits in lower case. -/
def printed (word : String) : String :=
  if IsHex word then word.toLower else Opcode.mnemonic word

/-- What a word can be read as. -/
inductive WordReads (word : String) : Except TextError Bytes → Prop
  | name {code} (hName : Opcode.ofName? word = some code) : WordReads word (.ok [code])
  | data {bytes} (hName : Opcode.ofName? word = none)
      (hData : Text.Hex.decode? word.toList = some bytes) (hFits : Push.fits bytes = true) :
      WordReads word (.ok (Push.encode bytes))
  | tooLong {bytes} (hName : Opcode.ofName? word = none)
      (hData : Text.Hex.decode? word.toList = some bytes) (hFits : Push.fits bytes = false) :
      WordReads word (.error (.push ⟨bytes.length⟩))
  | badToken (hName : Opcode.ofName? word = none) (hData : Text.Hex.decode? word.toList = none) :
      WordReads word (.error (.badToken word))

-- ---------------------------------------------------------------------------
-- Reading one word
-- ---------------------------------------------------------------------------

variable {word : String} {code : Opcode} {bytes : Bytes}

theorem isHex_iff : IsHex word ↔ ∃ bytes, Text.Hex.decode? word.toList = some bytes := by
  rw [Text.Hex.exists_decode_iff, String.length_toList, IsHex]

theorem not_isHex_of_ofName? (h : Opcode.ofName? word = some code) : ¬ IsHex word := by
  obtain ⟨c, hMem, hNot⟩ := Opcode.exists_not_digit h
  exact fun hHex => hNot (hHex.2 c hMem)

theorem decode_of_ofName? (h : Opcode.ofName? word = some code) :
    Text.Hex.decode? word.toList = none := by
  rw [Option.eq_none_iff_forall_ne_some]
  exact fun bytes hData => not_isHex_of_ofName? h (isHex_iff.2 ⟨bytes, hData⟩)

theorem length_of_decode (h : Text.Hex.decode? word.toList = some bytes) :
    word.length = 2 * bytes.length := by
  rw [← String.length_toList]
  exact (Text.Hex.encode_of_decode h).2

theorem isToken_iff : IsToken word ↔
    (∃ code, Opcode.ofName? word = some code) ∨
      ∃ bytes, Text.Hex.decode? word.toList = some bytes := by
  rw [Opcode.exists_ofName?_iff, ← isHex_iff, IsToken]

theorem isTooLong_iff : IsTooLong word ↔
    ∃ bytes, Text.Hex.decode? word.toList = some bytes ∧ Push.fits bytes = false := by
  constructor
  · rintro ⟨hHex, hSize⟩
    obtain ⟨bytes, hData⟩ := isHex_iff.1 hHex
    have hLength := length_of_decode hData
    refine ⟨bytes, hData, decide_eq_false ?_⟩
    omega
  · rintro ⟨bytes, hData, hFits⟩
    have hLength := length_of_decode hData
    have hSize : ¬ bytes.length ≤ 0xffffffff := of_decide_eq_false hFits
    refine ⟨isHex_iff.2 ⟨bytes, hData⟩, ?_⟩
    omega

theorem ofWord_reads (word : String) : WordReads word (ofWord word) := by
  cases hName : Opcode.ofName? word with
  | some code =>
    rw [ofWord_of_name hName]
    exact .name hName
  | none =>
    cases hData : Text.Hex.decode? word.toList with
    | none =>
      rw [ofWord_of_none hName hData]
      exact .badToken hName hData
    | some bytes =>
      rw [ofWord_of_hex hName hData, Push.encode?]
      cases hFits : Push.fits bytes with
      | true => exact .data hName hData hFits
      | false => exact .tooLong hName hData hFits

/-- **Why a word is not read**: it is no token, or too long a one. -/
theorem ofWord_eq_error_iff {cause : TextError} : ofWord word = .error cause ↔
    (¬ IsToken word ∧ cause = .badToken word) ∨
      (IsTooLong word ∧ cause = .push ⟨word.length / 2⟩) := by
  have hReads := ofWord_reads word
  rw [isToken_iff, isTooLong_iff]
  generalize ofWord word = result at hReads ⊢
  cases hReads with
  | name hName => simp [hName, decode_of_ofName? hName]
  | data hName hData hFits => simp [hData, hFits]
  | @tooLong bytes hName hData hFits =>
    have hHalf : word.length / 2 = bytes.length := by
      rw [length_of_decode hData]
      omega
    simp [hData, hFits, hHalf, eq_comm (a := cause)]
  | badToken hName hData => simp [hName, hData, eq_comm (a := cause)]

/-- **Which words are read**: tokens that are not too long. -/
theorem exists_ofWord_iff :
    (∃ part, ofWord word = .ok part) ↔ IsToken word ∧ ¬ IsTooLong word := by
  have hError : (∃ part, ofWord word = .ok part) ↔ ∀ cause, ofWord word ≠ .error cause := by
    cases ofWord word with
    | ok part => simp
    | error cause => simp
  simp only [hError, ne_eq, ofWord_eq_error_iff]
  constructor
  · intro h
    refine ⟨?_, fun hLong => h _ (.inr ⟨hLong, rfl⟩)⟩
    by_contra hNot
    exact h _ (.inl ⟨hNot, rfl⟩)
  · rintro ⟨hToken, hNotLong⟩ cause (⟨hNot, -⟩ | ⟨hLong, -⟩)
    · exact hNot hToken
    · exact hNotLong hLong

-- ---------------------------------------------------------------------------
-- The instruction of a token
-- ---------------------------------------------------------------------------

/-- A word and the instruction that it is assembled to. -/
structure Assembles (word : String) (instruction : Instruction) : Prop where
  standsFor : StandsFor word instruction
  writable : instruction.Writable
  named : instruction.Named
  ofWord_eq : ofWord word = .ok instruction.encode
  /-- The instruction is written as the word was. -/
  word_eq : instruction.word = printed word

/-- **A token stands for one instruction**, unless a length stands behind its opcode. -/
theorem exists_assembles {part : Bytes} (hWord : Text.IsWord word) (h : ofWord word = .ok part)
    (hPush : word ∉ Opcode.pushDataNames) : ∃ instruction, Assembles word instruction := by
  have hReads := ofWord_reads word
  generalize hResult : ofWord word = result at hReads
  cases hReads with
  | name hName =>
    have hPrinted : printed word = Opcode.mnemonic word := if_neg (not_isHex_of_ofName? hName)
    have hMnemonic := Opcode.name?_of_ofName? hName
    -- the opcode is no length and announces none, so it is decoded by itself
    rcases Opcode.eq_zero_or_lt_of_ofName? hName hPush with rfl | hOwn
    · refine ⟨.push [], .empty hName, rfl, trivial, ?_, ?_⟩
      · rw [hResult, Instruction.encode, Push.encode_nil]
      · have hZero : Opcode.name? 0x00 = some "OP_0" := rfl
        rw [hPrinted, Instruction.word]
        exact Option.some.inj (hZero.symm.trans hMnemonic)
    · refine ⟨.op _, .op hName ?_, hOwn, ?_, hResult, ?_⟩
      · rintro rfl
        exact absurd hOwn (by decide)
      · rw [Instruction.Named, hMnemonic]
        rfl
      · rw [hPrinted, Instruction.word, hMnemonic]
        rfl
  | @data bytes hName hData hFits =>
    have hPrinted : printed word = word.toLower := if_pos (isHex_iff.2 ⟨bytes, hData⟩)
    have hNil : bytes ≠ [] := by
      rintro rfl
      exact hWord.1 (List.length_eq_zero_iff.1 (Text.Hex.encode_of_decode hData).2)
    have hLower : (Text.Hex.encode bytes).toList = word.toLower.toList := by
      rw [(Text.Hex.encode_of_decode hData).1]
      exact String.toList_map.symm
    refine ⟨.push bytes, .data hData, hFits, trivial, hResult, ?_⟩
    rw [hPrinted, Instruction.word_push hNil]
    exact String.toList_inj.1 hLower
  | tooLong hName hData hFits => rw [h] at hResult; cases hResult
  | badToken hName hData => rw [h] at hResult; cases hResult

-- ---------------------------------------------------------------------------
-- Whole texts
-- ---------------------------------------------------------------------------

variable {text : String} {script : Script} {instructions : List Instruction}

theorem exists_forall₂_assembles (h : ofText text = .ok script)
    (hPush : ∀ word ∈ Text.words text, word ∉ Opcode.pushDataNames) :
    ∃ instructions, List.Forall₂ Assembles (Text.words text) instructions := by
  refine exists_forall₂_iff.2 fun word hMem => ?_
  obtain ⟨part, hPart⟩ := exists_ofText_iff.1 ⟨script, h⟩ word hMem
  exact exists_assembles (Text.isWord_of_mem_words hMem) hPart (hPush word hMem)

theorem writable_of_assembles (h : List.Forall₂ Assembles (Text.words text) instructions) :
    ∀ instruction ∈ instructions, instruction.Writable ∧ instruction.Named :=
  forall_of_forall₂ h fun _ _ hWord => ⟨hWord.writable, hWord.named⟩

/-- A text that is one word, made of more digits than can be pushed. -/
theorem ofText_of_isTooLong (h : IsTooLong text) :
    Text.words text = [text] ∧ ofText text = .error (.push ⟨text.length / 2⟩) := by
  have hWord : Text.IsWord text := by
    refine ⟨fun hNil => ?_, fun c hMem => (h.1.2 c hMem).not_blank⟩
    have hSize := h.2
    rw [← String.length_toList, hNil, List.length_nil] at hSize
    omega
  have hWords := Text.words_of_isWord hWord
  refine ⟨hWords, ofText_eq_error_iff.2 ⟨[], text, [], hWords, nofun, ?_⟩⟩
  exact ofWord_eq_error_iff.2 (.inr ⟨h, rfl⟩)

theorem length_zeros (n : Nat) : (String.ofList (List.replicate n '0')).length = n := by
  rw [String.length_ofList, List.length_replicate]

theorem isTooLong_zeros {n : Nat} (hEven : n % 2 = 0) (hSize : 2 ^ 33 ≤ n) :
    IsTooLong (String.ofList (List.replicate n '0')) := by
  unfold IsTooLong IsHex
  rw [length_zeros, String.toList_ofList]
  refine ⟨⟨hEven, fun c hMem => ?_⟩, hSize⟩
  rw [List.eq_of_mem_replicate hMem]
  decide

/-- A text is read as the shortest bytes of the instructions of its tokens. -/
theorem ofText_of_assembles (h : List.Forall₂ Assembles (Text.words text) instructions) :
    ofText text = .ok (instructions.flatMap Instruction.encode) := by
  refine ofText_eq_ok_iff.2 ⟨instructions.map Instruction.encode, ?_, rfl⟩
  rw [List.forall₂_map_right_iff]
  exact h.imp fun word instruction hWord => hWord.ofWord_eq

/-- **A text that is read as a script and written again.** Reading succeeds just when each
word is a token that is not too long; else the first word that is not is the error. Without
the three opcodes behind which a length stands, the script decodes to one instruction for
each token, it is written as the tokens with one space between them, and it is read again
from what is written. -/
theorem ofText_assembles (text : String) :
    ((∃ script, ofText text = .ok script) ↔
      ∀ word ∈ Text.words text, IsToken word ∧ ¬ IsTooLong word) ∧
    (∀ cause, ofText text = .error cause ↔
      ∃ front word rest, Text.words text = front ++ word :: rest ∧
        (∀ other ∈ front, IsToken other ∧ ¬ IsTooLong other) ∧
        ((¬ IsToken word ∧ cause = .badToken word) ∨
          (IsTooLong word ∧ cause = .push ⟨word.length / 2⟩))) ∧
    ∀ script, ofText text = .ok script →
      (∀ word ∈ Text.words text, word ∉ Opcode.pushDataNames) →
        List.Forall₂ (fun word item => ∃ instruction, StandsFor word instruction ∧
            item.content = .ok instruction ∧ ofWord word = .ok item.raw)
          (Text.words text) script.items ∧
        script.toText = " ".intercalate ((Text.words text).map printed) ∧
        ofText script.toText = .ok script := by
  refine ⟨?_, fun cause => ?_, fun script hScript hPush => ?_⟩
  · simp only [exists_ofText_iff, exists_ofWord_iff]
  · simp only [ofText_eq_error_iff, exists_ofWord_iff, ofWord_eq_error_iff]
  · obtain ⟨instructions, hAssembles⟩ := exists_forall₂_assembles hScript hPush
    have hWritable := writable_of_assembles hAssembles
    have hText := ofText_of_assembles hAssembles
    obtain rfl : instructions.flatMap Instruction.encode = script :=
      Except.ok.inj (hText.symm.trans hScript)
    have hItems := items_flatMap_encode fun instruction hMem => (hWritable _ hMem).1
    have hWords : (items (instructions.flatMap Instruction.encode)).map Item.word =
        instructions.map Instruction.word :=
      forall₂_iff_map_eq.1 (hItems.imp fun item instruction hItem => Item.word_of_ok hItem.1)
    have hPrinted : (Text.words text).map printed = instructions.map Instruction.word :=
      forall₂_iff_map_eq.1 (hAssembles.imp fun word instruction hWord => hWord.word_eq.symm)
    refine ⟨?_, ?_, ?_⟩
    · refine (forall₂_comp hAssembles hItems.flip).imp fun word item hPair => ?_
      obtain ⟨instruction, hWord, hContent, hRaw⟩ := hPair
      exact ⟨instruction, hWord.standsFor, hContent, hRaw ▸ hWord.ofWord_eq⟩
    · rw [toText, hWords, hPrinted]
    · rw [toText, hWords]
      exact ofText_intercalate_word hWritable

/-- Second spellings, blanks and digits of either case are written in one way. -/
theorem ofText_assembles_spellings :
    let text := " OP_TRUE\tAbCd  OP_CHECKSIG"
    let script : Script := [0x51, 0x02, 0xab, 0xcd, 0xac]
    ofText text = .ok script ∧ Text.words text = ["OP_TRUE", "AbCd", "OP_CHECKSIG"] ∧
      script.toText = "OP_1 abcd OP_CHECKSIG" ∧ ofText script.toText = .ok script := by
  intro text script
  have hScript : ofText text = .ok script := by decide +kernel
  have hWords : Text.words text = ["OP_TRUE", "AbCd", "OP_CHECKSIG"] := by decide +kernel
  have hPush : ∀ word ∈ Text.words text, word ∉ Opcode.pushDataNames := by
    rw [hWords]
    decide +kernel
  have hPrinted : " ".intercalate ((Text.words text).map printed) = "OP_1 abcd OP_CHECKSIG" := by
    rw [hWords]
    decide +kernel
  obtain ⟨-, -, hAssembles⟩ := ofText_assembles text
  obtain ⟨-, hText, hAgain⟩ := hAssembles script hScript hPush
  exact ⟨hScript, hWords, hText.trans hPrinted, hAgain⟩

/-- Being made of tokens is not enough: a text of zeros, two for each of 2 ^ 32 bytes, is one
token, and its bytes are refused. -/
theorem ofText_tooLong :
    let text := String.ofList (List.replicate (2 ^ 33) '0')
    (∀ word ∈ Text.words text, IsToken word) ∧ ofText text = .error (.push ⟨2 ^ 32⟩) ∧
      ¬ ((∃ script, ofText text = .ok script) ↔ ∀ word ∈ Text.words text, IsToken word) := by
  intro text
  have hLong : IsTooLong text := isTooLong_zeros (by decide) (Nat.le_refl _)
  obtain ⟨hWords, hError⟩ := ofText_of_isTooLong hLong
  have hTokens : ∀ word ∈ Text.words text, IsToken word := by
    intro word hMem
    rw [hWords, List.mem_singleton] at hMem
    exact .inr (hMem ▸ hLong.1)
  rw [length_zeros] at hError
  refine ⟨hTokens, hError, fun hIff => ?_⟩
  obtain ⟨script, hScript⟩ := hIff.2 hTokens
  rw [hError] at hScript
  cases hScript

end LegacyScript.Script
