import LegacyScript.Proofs.Bytes
import LegacyScript.Proofs.Script.Items
import LegacyScript.Script.Push

/-!
# What is read behind an opcode

An opcode announces data in one of two ways: it is the number of bytes itself, or one, two
or four bytes behind it are. `Announces` says so of an opcode, the bytes of the length and
the number of bytes that are announced. All that can be read behind an opcode is one of
four cases of `Reads`: nothing, the data that is announced, or one of the two errors.

## Results

* `read_reads`        — there is no fifth case.
* `content_read_eq_earlyEnd_iff`, `content_read_eq_pushPastEnd_iff` — when reading fails.
* `read_append_of_ok` — what is read without an error does not depend on what follows.
* `header_announces`  — the shortest push announces its data.
-/

namespace LegacyScript

/-- The opcodes behind which the number of bytes stands, and the width of that number. -/
def Push.countedForms : List (Opcode × Nat) :=
  [(0x4c, 1), (0x4d, 2), (0x4e, 4)]

/-- An opcode and the bytes of a length behind it announce data of a size. -/
inductive Announces : Opcode → Bytes → Nat → Prop
  | direct {code : Opcode} (hCode : code ≤ 0x4b) : Announces code [] code.toNat
  | counted {code : Opcode} {width : Bytes} (hForm : (code, width.length) ∈ Push.countedForms) :
      Announces code width (Bytes.toNatLE width)

namespace PushForm

variable {code : Opcode}

theorem ofOpcode?_of_direct (h : code ≤ 0x4b) : ofOpcode? code = some (.direct code.toNat) := by
  rw [ofOpcode?, if_pos h]

theorem ofOpcode?_of_counted {width : Nat} (h : (code, width) ∈ Push.countedForms) :
    ofOpcode? code = some (.counted width) := by
  simp only [Push.countedForms, List.mem_cons, Prod.mk.injEq, List.not_mem_nil, or_false] at h
  rcases h with ⟨rfl, rfl⟩ | ⟨rfl, rfl⟩ | ⟨rfl, rfl⟩
  · rfl
  · rfl
  · rfl

theorem ofOpcode?_cases (code : Opcode) :
    0x4e < code ∨ code ≤ 0x4b ∨ ∃ width, (code, width) ∈ Push.countedForms := by
  cases hForm : ofOpcode? code with
  | none => exact .inl (ofOpcode?_eq_none_iff.1 hForm)
  | some form =>
    unfold ofOpcode? at hForm
    split at hForm
    · next h => exact .inr (.inl h)
    · split at hForm
      · next h => exact .inr (.inr ⟨1, by simp [h, Push.countedForms]⟩)
      · split at hForm
        · next h => exact .inr (.inr ⟨2, by simp [h, Push.countedForms]⟩)
        · split at hForm
          · next h => exact .inr (.inr ⟨4, by simp [h, Push.countedForms]⟩)
          · cases hForm

end PushForm

namespace Instruction

-- ---------------------------------------------------------------------------
-- The four cases
-- ---------------------------------------------------------------------------

/-- What can be read behind an opcode. -/
inductive Reads (code : Opcode) : Bytes → Reading → Prop
  /-- The opcode stands for itself. -/
  | op {bs} (hCode : 0x4e < code) : Reads code bs ⟨.ok (.op code), [], bs⟩
  /-- The data that is announced is there. -/
  | push {width data rest} (h : Announces code width data.length) :
      Reads code (width ++ data ++ rest) ⟨.ok (.push data), width ++ data, rest⟩
  /-- Not even the length is there. -/
  | earlyEnd {width bs} (hForm : (code, width) ∈ Push.countedForms) (hShort : bs.length < width) :
      Reads code bs ⟨.error .earlyEnd, [], bs⟩
  /-- The data is cut off. -/
  | pushPastEnd {width size rest} (h : Announces code width size) (hShort : rest.length < size) :
      Reads code (width ++ rest) ⟨.error .pushPastEnd, width, rest⟩

variable {code : Opcode} {width data bs : Bytes}

theorem readData_of_length (width data rest : Bytes) :
    readData width data.length (data ++ rest) = ⟨.ok (.push data), width ++ data, rest⟩ := by
  rw [readData, Bytes.split?_eq_some_iff.2 ⟨rfl, rfl⟩]

theorem readData_of_lt {size : Nat} {rest : Bytes} (h : rest.length < size) :
    readData width size rest = ⟨.error .pushPastEnd, width, rest⟩ := by
  rw [readData, Bytes.split?_eq_none_iff.2 h]

/-- Behind the bytes of the length the data is read. -/
theorem read_of_announces {size : Nat} (h : Announces code width size) (rest : Bytes) :
    read code (width ++ rest) = readData width size rest := by
  cases h with
  | direct hCode => rw [read, PushForm.ofOpcode?_of_direct hCode, List.nil_append]
  | counted hForm =>
    rw [read, PushForm.ofOpcode?_of_counted hForm]
    dsimp only
    rw [Bytes.split?_eq_some_iff.2 ⟨rfl, rfl⟩]

theorem read_of_lt_width {width : Nat} (hForm : (code, width) ∈ Push.countedForms)
    (hShort : bs.length < width) : read code bs = ⟨.error .earlyEnd, [], bs⟩ := by
  rw [read, PushForm.ofOpcode?_of_counted hForm]
  dsimp only
  rw [Bytes.split?_eq_none_iff.2 hShort]

theorem reads_of_announces {size : Nat} (h : Announces code width size) (rest : Bytes) :
    Reads code (width ++ rest) (read code (width ++ rest)) := by
  rw [read_of_announces h]
  rcases Nat.lt_or_ge rest.length size with hShort | hFits
  · rw [readData_of_lt hShort]
    exact .pushPastEnd h hShort
  · obtain ⟨data, more, rfl, rfl⟩ : ∃ data more, rest = data ++ more ∧ data.length = size :=
      ⟨rest.take size, rest.drop size, (List.take_append_drop size rest).symm,
        List.length_take_of_le hFits⟩
    rw [readData_of_length, ← List.append_assoc]
    exact .push h

/-- **What is read behind an opcode is one of the four cases.** -/
theorem read_reads (code : Opcode) (bs : Bytes) : Reads code bs (read code bs) := by
  rcases PushForm.ofOpcode?_cases code with hOp | hDirect | ⟨width, hForm⟩
  · rw [read_of_lt hOp]
    exact .op hOp
  · exact reads_of_announces (.direct hDirect) bs
  · rcases Nat.lt_or_ge bs.length width with hShort | hFits
    · rw [read_of_lt_width hForm hShort]
      exact .earlyEnd hForm hShort
    · rw [← List.take_append_drop width bs]
      refine reads_of_announces (.counted ?_) _
      rwa [List.length_take_of_le hFits]

/-- Reading fails at the length just when the opcode asks for more bytes than follow. -/
theorem content_read_eq_earlyEnd_iff : (read code bs).content = .error .earlyEnd ↔
    ∃ width, (code, width) ∈ Push.countedForms ∧ bs.length < width := by
  constructor
  · intro h
    have hReads := read_reads code bs
    generalize read code bs = reading at h hReads
    cases hReads with
    | op hCode => cases h
    | push hAnnounces => cases h
    | earlyEnd hForm hShort => exact ⟨_, hForm, hShort⟩
    | pushPastEnd hAnnounces hShort => cases h
  · rintro ⟨width, hForm, hShort⟩
    rw [read_of_lt_width hForm hShort]

theorem read_of_lt_announced {size : Nat} {rest : Bytes} (h : Announces code width size)
    (hShort : rest.length < size) :
    read code (width ++ rest) = ⟨.error .pushPastEnd, width, rest⟩ := by
  rw [read_of_announces h, readData_of_lt hShort]

/-- Reading fails at the data just when more is announced than what remains. -/
theorem content_read_eq_pushPastEnd_iff : (read code bs).content = .error .pushPastEnd ↔
    ∃ width size rest, bs = width ++ rest ∧ Announces code width size ∧ rest.length < size := by
  constructor
  · intro h
    have hReads := read_reads code bs
    generalize read code bs = reading at h hReads
    cases hReads with
    | op hCode => cases h
    | push hAnnounces => cases h
    | earlyEnd hForm hShort => cases h
    | pushPastEnd hAnnounces hShort => exact ⟨_, _, _, rfl, hAnnounces, hShort⟩
  · rintro ⟨width, size, rest, rfl, hAnnounces, hShort⟩
    rw [read_of_lt_announced hAnnounces hShort]

/-- The data that is announced is read. -/
theorem read_push (h : Announces code width data.length) (rest : Bytes) :
    read code (width ++ data ++ rest) = ⟨.ok (.push data), width ++ data, rest⟩ := by
  rw [List.append_assoc, read_of_announces h, readData_of_length]

/-- What is read without an error does not depend on what follows. -/
theorem read_append_of_ok {reading : Reading} (h : read code bs = reading)
    (hOk : reading.content.isOk = true) (more : Bytes) :
    read code (bs ++ more) = { reading with rest := reading.rest ++ more } := by
  have hReads := read_reads code bs
  rw [h] at hReads
  cases hReads with
  | op hCode => exact read_of_lt hCode
  | push hAnnounces => rw [List.append_assoc, read_push hAnnounces]
  | earlyEnd hForm hShort => exact absurd hOk Bool.false_ne_true
  | pushPastEnd hAnnounces hShort => exact absurd hOk Bool.false_ne_true

/-- What is read without an error is read again from its own bytes, whatever follows them. -/
theorem read_operand_append {content : Except DecodeError Instruction} {operand rest : Bytes}
    (h : Reads code bs ⟨content, operand, rest⟩) (hOk : content.isOk = true) (more : Bytes) :
    read code (operand ++ more) = ⟨content, operand, more⟩ := by
  cases h with
  | op hCode => exact read_of_lt hCode
  | push hAnnounces => exact read_push hAnnounces more
  | earlyEnd hForm hShort => exact absurd hOk Bool.false_ne_true
  | pushPastEnd hAnnounces hShort => exact absurd hOk Bool.false_ne_true

end Instruction

-- ---------------------------------------------------------------------------
-- The shortest push
-- ---------------------------------------------------------------------------

theorem announces_ofNatLE {code : Opcode} {width size : Nat}
    (hForm : (code, width) ∈ Push.countedForms) (hSize : size < 256 ^ width) :
    Announces code (Bytes.ofNatLE width size) size := by
  have h : Announces code (Bytes.ofNatLE width size) (Bytes.toNatLE (Bytes.ofNatLE width size)) :=
    .counted (by rwa [Bytes.length_ofNatLE])
  rwa [Bytes.toNatLE_ofNatLE, Nat.mod_eq_of_lt hSize] at h

/-- The opcode and the length of the shortest push announce its data. -/
theorem Push.header_announces {size : Nat} (h : size ≤ 0xffffffff) :
    ∃ code width, Push.header size = code :: width ∧ Announces code width size := by
  unfold Push.header
  split
  · next hDirect =>
    have hSize : (UInt8.ofNat size).toNat = size := by
      rw [UInt8.toNat_ofNat']
      omega
    have hAnnounces : Announces (UInt8.ofNat size) [] (UInt8.ofNat size).toNat :=
      .direct (by rw [UInt8.le_iff_toNat_le, hSize]; exact hDirect)
    rw [hSize] at hAnnounces
    exact ⟨UInt8.ofNat size, [], rfl, hAnnounces⟩
  · split
    · next hByte => exact ⟨0x4c, _, rfl, announces_ofNatLE (by decide) (by omega)⟩
    · split
      · next hPair => exact ⟨0x4d, _, rfl, announces_ofNatLE (by decide) (by omega)⟩
      · exact ⟨0x4e, _, rfl, announces_ofNatLE (by decide) (by omega)⟩

end LegacyScript
