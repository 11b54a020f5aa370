import LegacyScript.Bytes
import LegacyScript.Opcode
import LegacyScript.Proofs.Text.Hex
import Mathlib.Data.List.Chain
import Mathlib.Data.List.Nodup

/-!
# Opcodes and their mnemonics

The table holds every opcode and every mnemonic once. So an opcode and its mnemonic lead to
each other, and the words that are read as an opcode are the mnemonics and the second
spellings of two of them.

## Results

* `ofName?_of_name?`   — the mnemonic of an opcode is read as that opcode.
* `exists_ofName?_iff` — the words that are read as an opcode.
* `name?_of_ofName?`   — the mnemonic of an opcode that a word is read as.
-/

namespace LegacyScript.Opcode

-- ---------------------------------------------------------------------------
-- The table
-- ---------------------------------------------------------------------------

theorem nodup_opcodes : (rows.map Row.opcode).Nodup := by
  have hSorted : (rows.map Row.opcode).IsChain (· < ·) := by decide +kernel
  exact hSorted.pairwise.imp fun hLt => UInt8.ne_of_lt hLt

theorem nodup_names : (rows.map Row.name).Nodup := by
  -- two names differ if the numbers do that their bytes make
  have hNumbers : ((rows.map Row.name).map fun name =>
      Bytes.toNatLE name.toByteArray.data.toList).Nodup := by decide +kernel
  exact hNumbers.of_map _

/-- Mnemonics are made of capital letters, digits and the underscore, and begin with an
`O`. -/
theorem name_chars : ∀ row ∈ rows, row.name.toList.head? = some 'O' ∧
    ∀ c ∈ row.name.toList, '0' ≤ c ∧ c ≤ '_' := by
  have hRows : ∀ row ∈ rows, row.name.toList.head? = some 'O' ∧
      (row.name.toList.all fun c => '0' ≤ c ∧ c ≤ '_') = true := by decide +kernel
  intro row hRow
  obtain ⟨hHead, hChars⟩ := hRows row hRow
  exact ⟨hHead, fun c hMem => of_decide_eq_true (List.all_eq_true.1 hChars c hMem)⟩

/-- A row is found by what is once in the table. -/
theorem find?_of_nodup {α : Type} [DecidableEq α] {key : Row → α} (h : (rows.map key).Nodup)
    {row : Row} (hRow : row ∈ rows) : rows.find? (key · == key row) = some row := by
  obtain ⟨front, behind, hRows⟩ := List.append_of_mem hRow
  rw [List.find?_eq_some_iff_append]
  refine ⟨beq_self_eq_true _, front, behind, hRows, fun other hOther => ?_⟩
  rw [hRows, List.map_append, List.map_cons] at h
  have hNe : key other ≠ key row := by
    have hDisjoint := (List.nodup_append.1 h).2.2
    exact hDisjoint _ (List.mem_map_of_mem hOther) _ List.mem_cons_self
  simpa using hNe

theorem row?_of_mem {row : Row} (h : row ∈ rows) : row? row.opcode = some row :=
  find?_of_nodup nodup_opcodes h

theorem name?_of_mem {row : Row} (h : row ∈ rows) : row.opcode.name? = some row.name := by
  rw [name?, row?_of_mem h]
  rfl

theorem ofName?_of_mem {row : Row} (h : row ∈ rows) : ofName? row.name = some row.opcode := by
  rw [ofName?, find?_of_nodup nodup_names h]

theorem exists_row_of_name? {code : Opcode} {name : String} (h : code.name? = some name) :
    ∃ row ∈ rows, row.opcode = code ∧ row.name = name := by
  obtain ⟨row, hRow, hName⟩ := Option.map_eq_some_iff.1 h
  unfold row? at hRow
  have hCode := List.find?_some hRow
  exact ⟨row, List.mem_of_find?_eq_some hRow, eq_of_beq hCode, hName⟩

/-- **The mnemonic of an opcode is read as that opcode.** -/
theorem ofName?_of_name? {code : Opcode} {name : String} (h : code.name? = some name) :
    ofName? name = some code := by
  obtain ⟨row, hRow, rfl, rfl⟩ := exists_row_of_name? h
  exact ofName?_of_mem hRow

-- ---------------------------------------------------------------------------
-- Words that are read as an opcode
-- ---------------------------------------------------------------------------

/-- Whether a word is a mnemonic or a second spelling of one. -/
def IsMnemonic (word : String) : Prop :=
  word ∈ rows.map Row.name ∨ word ∈ aliases.map Prod.fst

/-- The mnemonic for a word that is read as an opcode. -/
def mnemonic (word : String) : String :=
  if word = "OP_FALSE" then "OP_0" else if word = "OP_TRUE" then "OP_1" else word

/-- No mnemonic is a second spelling of another. -/
theorem not_alias_of_mem : ∀ pair ∈ aliases, pair.1 ∉ rows.map Row.name := by
  decide +kernel

theorem ofName?_cases {word : String} {code : Opcode} (h : ofName? word = some code) :
    (∃ row ∈ rows, row.opcode = code ∧ row.name = word) ∨ (word, code) ∈ aliases := by
  unfold ofName? at h
  split at h
  · next row hFind =>
    have hName := List.find?_some hFind
    exact .inl ⟨row, List.mem_of_find?_eq_some hFind, Option.some.inj h, eq_of_beq hName⟩
  · obtain ⟨front, behind, hAliases, -⟩ := List.lookup_eq_some_iff.1 h
    rw [hAliases]
    exact .inr (List.mem_append_right _ List.mem_cons_self)

/-- **The words that are read as an opcode.** -/
theorem exists_ofName?_iff (word : String) :
    (∃ code, ofName? word = some code) ↔ IsMnemonic word := by
  constructor
  · rintro ⟨code, h⟩
    rcases ofName?_cases h with ⟨row, hRow, -, rfl⟩ | hAlias
    · exact .inl (List.mem_map_of_mem hRow)
    · exact .inr (List.mem_map_of_mem hAlias)
  · rintro (hRow | hAlias)
    · obtain ⟨row, hMem, rfl⟩ := List.mem_map.1 hRow
      exact ⟨row.opcode, ofName?_of_mem hMem⟩
    · simp only [aliases, List.map_cons, List.map_nil, List.mem_cons, List.not_mem_nil,
        or_false] at hAlias
      rcases hAlias with rfl | rfl
      · exact ⟨0x00, by decide +kernel⟩
      · exact ⟨0x51, by decide +kernel⟩

/-- **The mnemonic of an opcode that a word is read as.** -/
theorem name?_of_ofName? {word : String} {code : Opcode} (h : ofName? word = some code) :
    code.name? = some (mnemonic word) := by
  rcases ofName?_cases h with ⟨row, hRow, rfl, rfl⟩ | hAlias
  · have hMem : row.name ∈ rows.map Row.name := List.mem_map_of_mem hRow
    have hFalse : row.name ≠ "OP_FALSE" := by
      intro hName
      exact not_alias_of_mem ("OP_FALSE", 0x00) List.mem_cons_self (hName ▸ hMem)
    have hTrue : row.name ≠ "OP_TRUE" := by
      intro hName
      exact not_alias_of_mem ("OP_TRUE", 0x51) (List.mem_cons_of_mem _ List.mem_cons_self)
        (hName ▸ hMem)
    rw [mnemonic, if_neg hFalse, if_neg hTrue, name?_of_mem hRow]
  · simp only [aliases, List.mem_cons, Prod.mk.injEq, List.not_mem_nil, or_false] at hAlias
    rcases hAlias with ⟨rfl, rfl⟩ | ⟨rfl, rfl⟩
    · decide +kernel
    · decide +kernel

-- ---------------------------------------------------------------------------
-- Mnemonics as words
-- ---------------------------------------------------------------------------

theorem not_blank_of_range {c : Char} (h : '0' ≤ c ∧ c ≤ '_') : Text.isBlank c = false := by
  have hLow : 48 ≤ c.toNat := h.1
  have hHigh : c.toNat ≤ 95 := h.2
  simp [Text.isBlank, Text.blankRanges]
  omega

theorem isWord_of_name? {code : Opcode} {name : String} (h : code.name? = some name) :
    Text.IsWord name := by
  obtain ⟨row, hRow, -, rfl⟩ := exists_row_of_name? h
  obtain ⟨hHead, hChars⟩ := name_chars row hRow
  obtain ⟨rest, hName⟩ := List.head?_eq_some_iff.1 hHead
  refine ⟨?_, fun c hMem => not_blank_of_range (hChars c hMem)⟩
  rw [hName]
  exact List.cons_ne_nil _ _

/-- A word that is read as an opcode is not made of digits. -/
theorem exists_not_digit {word : String} {code : Opcode} (h : ofName? word = some code) :
    ∃ c ∈ word.toList, ¬ Text.Hex.IsDigit c := by
  refine ⟨'O', ?_, by decide⟩
  rcases ofName?_cases h with ⟨row, hRow, -, rfl⟩ | hAlias
  · exact List.mem_of_head? (name_chars row hRow).1
  · simp only [aliases, List.mem_cons, Prod.mk.injEq, List.not_mem_nil, or_false] at hAlias
    rcases hAlias with ⟨rfl, -⟩ | ⟨rfl, -⟩
    · simp
    · simp

theorem ofName?_of_digits {word : String} (h : ∀ c ∈ word.toList, Text.Hex.IsDigit c) :
    ofName? word = none := by
  cases hName : ofName? word with
  | none => rfl
  | some code =>
    obtain ⟨c, hMem, hNot⟩ := exists_not_digit hName
    exact absurd (h c hMem) hNot

-- ---------------------------------------------------------------------------
-- Opcodes that push bytes of the script
-- ---------------------------------------------------------------------------

/-- The mnemonics of the opcodes behind which a length stands. -/
def pushDataNames : List String :=
  ["OP_PUSHDATA1", "OP_PUSHDATA2", "OP_PUSHDATA4"]

/-- All other words are read as the opcode that pushes nothing or as one that stands for
itself. -/
theorem eq_zero_or_lt_of_ofName? {word : String} {code : Opcode} (h : ofName? word = some code)
    (hWord : word ∉ pushDataNames) : code = 0x00 ∨ 0x4e < code := by
  have hRows : ∀ row ∈ rows, row.opcode ≠ 0x00 → row.opcode ≤ 0x4e → row.name ∈ pushDataNames := by
    decide +kernel
  rcases ofName?_cases h with ⟨row, hRow, rfl, rfl⟩ | hAlias
  · by_contra hNot
    rw [not_or, UInt8.not_lt] at hNot
    exact hWord (hRows row hRow hNot.1 hNot.2)
  · simp only [aliases, List.mem_cons, Prod.mk.injEq, List.not_mem_nil, or_false] at hAlias
    rcases hAlias with ⟨-, rfl⟩ | ⟨-, rfl⟩
    · exact .inl rfl
    · exact .inr (by decide)

end LegacyScript.Opcode
