import LegacyScript.Proofs.Wire.Decoding
import LegacyScript.Transaction.Basic

/-!
# Transactions have one form

A transaction that is read was written in just the bytes that it was read from. The reader of
each part undoes its writer, and that of a transaction undoes `Transaction.encode`, for the
reason that each of the two forms is used where the other is not:

* a count of zero is never that of a plain form, so it can mark the extended one;
* the extended form is refused where no input has a witness, unless there is no input.

In the extended form the witnesses are read behind the outputs, and given to inputs that were
read without them. `TxInput.bare` is such an input.

What fits is what a reader accepts: counts and lengths below 2^64, and witnesses within
their limit.

## Results

* `Witness.read_undoes`, `readWitnesses_eq_ok_iff` — witnesses, and their way to the inputs.
* `Transaction.readExtended_eq_ok_iff`, `Transaction.readPlain_eq_ok_iff`,
  `Transaction.read_undoes` — the two forms.
* `Transaction.parse_eq_ok_iff` — what is parsed is what is written.
* `Transaction.parse_canonical` — and nothing else is, shorter or longer.
-/

namespace LegacyScript

open Wire Wire.Reader
open Bytes (ofNatLE)

variable {bs rest : Bytes}

-- ---------------------------------------------------------------------------
-- Parts
-- ---------------------------------------------------------------------------

namespace OutPoint

theorem read_undoes : read.Undoes encode fun _ => True := by
  intro bs point rest
  simp only [read, bind_eq_ok_iff, fixed_undoes 32 _ _ _, word_undoes 4 _ _ _, pure_eq_ok_iff,
    true_and]
  rw [encode, List.append_assoc]
  constructor
  · rintro ⟨hash, _, rfl, index, _, ⟨hIndex, rfl⟩, rfl, rfl⟩
    rw [UInt32.toNat_ofNat_of_lt' hIndex]
  · rintro rfl
    refine ⟨point.hash, _, rfl, point.index.toNat, rest, ⟨point.index.toNat_lt, rfl⟩, ?_, rfl⟩
    rw [UInt32.ofNat_toNat]

end OutPoint

namespace TxInput

/-- The input without its witness. -/
def bare (input : TxInput) : TxInput := { input with witness := [] }

theorem eq_of_bare_eq {input other : TxInput} (h : input.bare = other.bare) :
    input = { other with witness := input.witness } := by
  cases input
  cases other
  simpa [bare] using h

/-- The witness is not written with the input. -/
theorem encodeList_map_bare (inputs : List TxInput) :
    encodeList encode (inputs.map bare) = encodeList encode inputs := by
  rw [encodeList, encodeList, List.length_map, List.flatMap_map]
  rfl

theorem map_bare_eq_self {inputs : List TxInput} (h : ∀ input ∈ inputs, input.witness = []) :
    inputs.map bare = inputs := by
  refine (List.map_congr_left fun input hMem => ?_).trans (List.map_id inputs)
  show { input with witness := [] } = input
  rw [← h input hMem]

theorem read_undoes : read.Undoes encode
    fun input => input.unlocking.length < 2 ^ 64 ∧ input.witness = [] := by
  intro bs input rest
  simp only [read, bind_eq_ok_iff, OutPoint.read_undoes _ _ _, readBytes_undoes _ _ _,
    word_undoes 4 _ _ _, pure_eq_ok_iff, true_and]
  rw [encode, List.append_assoc, List.append_assoc]
  constructor
  · rintro ⟨previous, _, rfl, unlocking, _, ⟨hUnlocking, rfl⟩, sequence, _, ⟨hSequence, rfl⟩, rfl,
      rfl⟩
    rw [UInt32.toNat_ofNat_of_lt' hSequence]
    exact ⟨⟨hUnlocking, rfl⟩, rfl⟩
  · rintro ⟨⟨hUnlocking, hWitness⟩, rfl⟩
    refine ⟨input.previous, _, rfl, input.unlocking, _, ⟨hUnlocking, rfl⟩, input.sequence.toNat,
      rest, ⟨input.sequence.toNat_lt, rfl⟩, ?_, rfl⟩
    rw [UInt32.ofNat_toNat, ← hWitness]

end TxInput

namespace TxOutput

theorem read_undoes : read.Undoes encode fun output => output.locking.length < 2 ^ 64 := by
  intro bs output rest
  simp only [read, bind_eq_ok_iff, readBytes_undoes _ _ _, word_undoes 8 _ _ _, pure_eq_ok_iff]
  rw [encode, List.append_assoc]
  constructor
  · rintro ⟨value, _, ⟨hValue, rfl⟩, locking, _, ⟨hLocking, rfl⟩, rfl, rfl⟩
    rw [UInt64.toNat_ofNat_of_lt' hValue]
    exact ⟨hLocking, rfl⟩
  · rintro ⟨hLocking, rfl⟩
    refine ⟨output.value.toNat, _, ⟨output.value.toNat_lt, rfl⟩, output.locking, rest,
      ⟨hLocking, rfl⟩, ?_, rfl⟩
    rw [UInt64.ofNat_toNat]

end TxOutput

-- ---------------------------------------------------------------------------
-- Witnesses
-- ---------------------------------------------------------------------------

namespace Witness

/-- A witness whose items are few and short enough to be read. -/
def Fits (items : List Bytes) : Prop :=
  items.length ≤ limit ∧ (items.flatMap encodeBytes).length ≤ limit

theorem fits_nil : Fits [] := ⟨Nat.zero_le _, Nat.zero_le _⟩

theorem length_flatMap_cons (item : Bytes) (items : List Bytes) :
    ((item :: items).flatMap encodeBytes).length =
      (CompactSize.encode item.length).length + item.length +
        (items.flatMap encodeBytes).length := by
  rw [List.flatMap_cons, List.length_append, encodeBytes, List.length_append]

/-- Items are read back when they are as many as announced and take no more than the room. -/
theorem readItems_eq_ok_iff {count room : Nat} (hRoom : room < 2 ^ 64) {items : List Bytes} :
    readItems count room bs = .ok (items, rest) ↔
      items.length = count ∧ (items.flatMap encodeBytes).length ≤ room ∧
        bs = items.flatMap encodeBytes ++ rest := by
  induction count generalizing room bs rest items with
  | zero =>
    simp only [readItems, pure_eq_ok_iff, List.length_eq_zero_iff]
    constructor
    · rintro ⟨rfl, rfl⟩
      exact ⟨rfl, Nat.zero_le _, rfl⟩
    · rintro ⟨rfl, -, rfl⟩
      exact ⟨rfl, rfl⟩
  | succ count ih =>
    simp only [readItems, bind_eq_ok_iff, CompactSize.read_undoes _ _ _, throw_bind,
      ite_throw_eq_ok_iff, bytes_eq_ok_iff, pure_eq_ok_iff]
    constructor
    · rintro ⟨_, _, ⟨-, rfl⟩, hTaken, item, _, ⟨rfl, rfl⟩, others, _, hOthers, rfl, rfl⟩
      obtain ⟨rfl, hLength, rfl⟩ := (ih (by omega)).1 hOthers
      refine ⟨rfl, ?_, ?_⟩
      · rw [length_flatMap_cons]
        omega
      · rw [List.flatMap_cons, encodeBytes]
        simp only [List.append_assoc]
    · rintro ⟨hCount, hLength, rfl⟩
      obtain ⟨item, others, rfl⟩ := List.exists_cons_of_length_eq_add_one hCount
      rw [length_flatMap_cons] at hLength
      have hOthers : (others.flatMap encodeBytes).length ≤
          room - ((CompactSize.encode item.length).length + item.length) := by omega
      refine ⟨item.length, _, ⟨by omega, ?_⟩, by omega, item, _, ⟨rfl, rfl⟩, others, rest,
        (ih (by omega)).2 ⟨Nat.succ.inj hCount, hOthers, rfl⟩, rfl, rfl⟩
      rw [List.flatMap_cons, encodeBytes]
      simp only [List.append_assoc]

theorem read_undoes : read.Undoes encode Fits := by
  intro bs items rest
  have hLimit : limit < 2 ^ 64 := by decide
  simp only [read, bind_eq_ok_iff, CompactSize.read_undoes _ _ _, throw_bind,
    ite_throw_eq_ok_iff, readItems_eq_ok_iff hLimit]
  rw [encode, encodeList, List.append_assoc, Fits]
  constructor
  · rintro ⟨_, _, ⟨-, rfl⟩, hCount, rfl, hLength, rfl⟩
    exact ⟨⟨Nat.not_lt.1 hCount, hLength⟩, rfl⟩
  · rintro ⟨⟨hCount, hLength⟩, rfl⟩
    exact ⟨items.length, _, ⟨by omega, rfl⟩, Nat.not_lt.2 hCount, rfl, hLength, rfl⟩

end Witness

namespace TxInput

/-- An input whose script and witness can be written. -/
def Fits (input : TxInput) : Prop :=
  input.unlocking.length < 2 ^ 64 ∧ Witness.Fits input.witness

end TxInput

namespace Transaction

/-- A transaction whose counts, scripts and witnesses can be written. -/
structure Fits (tx : Transaction) : Prop where
  length_inputs : tx.inputs.length < 2 ^ 64
  inputs : ∀ input ∈ tx.inputs, input.Fits
  length_outputs : tx.outputs.length < 2 ^ 64
  outputs : ∀ output ∈ tx.outputs, output.locking.length < 2 ^ 64

/-- What is written of the witnesses of inputs. -/
def encodeWitnesses (inputs : List TxInput) : Bytes :=
  inputs.flatMap fun input => Witness.encode input.witness

@[simp] theorem encodeWitnesses_cons (input : TxInput) (inputs : List TxInput) :
    encodeWitnesses (input :: inputs) = Witness.encode input.witness ++ encodeWitnesses inputs :=
  rfl

theorem readWitnesses_eq_ok_iff {bare inputs : List TxInput} :
    readWitnesses bare bs = .ok (inputs, rest) ↔
      inputs.map TxInput.bare = bare.map TxInput.bare ∧
        (∀ input ∈ inputs, Witness.Fits input.witness) ∧ bs = encodeWitnesses inputs ++ rest := by
  induction bare generalizing bs rest inputs with
  | nil =>
    simp only [readWitnesses, pure_eq_ok_iff, List.map_nil, List.map_eq_nil_iff]
    constructor
    · rintro ⟨rfl, rfl⟩
      exact ⟨rfl, nofun, rfl⟩
    · rintro ⟨rfl, -, rfl⟩
      exact ⟨rfl, rfl⟩
  | cons first bare ih =>
    simp only [readWitnesses, bind_eq_ok_iff, Witness.read_undoes _ _ _, pure_eq_ok_iff, ih]
    constructor
    · rintro ⟨witness, _, ⟨hWitness, rfl⟩, others, _, ⟨hBare, hOthers, rfl⟩, rfl, rfl⟩
      refine ⟨?_, List.forall_mem_cons.2 ⟨hWitness, hOthers⟩, ?_⟩
      · rw [List.map_cons, List.map_cons, hBare]
        rfl
      · rw [encodeWitnesses_cons, List.append_assoc]
    · rintro ⟨hBare, hFits, rfl⟩
      rw [List.map_cons, List.map_eq_cons_iff] at hBare
      obtain ⟨input, others, rfl, hFirst, hBare⟩ := hBare
      rw [List.forall_mem_cons] at hFits
      refine ⟨input.witness, _, ⟨hFits.1, ?_⟩, others, rest, ⟨hBare, hFits.2, rfl⟩, ?_, rfl⟩
      · rw [encodeWitnesses_cons, List.append_assoc]
      · rw [← TxInput.eq_of_bare_eq hFirst]

-- ---------------------------------------------------------------------------
-- The two forms
-- ---------------------------------------------------------------------------

/-- The extended form is used just where it is not superfluous. -/
theorem isExtended_iff {tx : Transaction} :
    tx.isExtended = true ↔
      ¬(!tx.inputs.isEmpty && tx.inputs.all (·.witness.isEmpty)) = true := by
  rw [isExtended, Bool.not_eq_true, ← Bool.not_eq_true', Bool.not_and, Bool.not_not,
    List.not_all_eq_any_not]

/-- The plain form is used where there are inputs, and none has a witness. -/
theorem isExtended_eq_false_iff {tx : Transaction} :
    tx.isExtended = false ↔
      ¬tx.inputs.isEmpty = true ∧ ∀ input ∈ tx.inputs, input.witness = [] := by
  simp [isExtended]

/-- In the extended form the marker is what is written of no inputs. -/
theorem encode_append_of_extended {tx : Transaction} (h : tx.isExtended = true) (rest : Bytes) :
    tx.encode ++ rest = encodeVersion tx.version ++ (encodeList TxInput.encode [] ++ 0x01 ::
      (encodeList TxInput.encode tx.inputs ++ (encodeList TxOutput.encode tx.outputs ++
        (encodeWitnesses tx.inputs ++ (ofNatLE 4 tx.lockTime.toNat ++ rest))))) := by
  rw [encode, if_pos h]
  simp only [List.append_assoc, List.cons_append, List.nil_append, encodeWitnesses]
  rfl

theorem encode_append_of_not_extended {tx : Transaction} (h : tx.isExtended = false)
    (rest : Bytes) :
    tx.encode ++ rest = encodeVersion tx.version ++ (encodeList TxInput.encode tx.inputs ++
      (encodeList TxOutput.encode tx.outputs ++ (ofNatLE 4 tx.lockTime.toNat ++ rest))) := by
  rw [encode, if_neg (by rw [h]; exact Bool.false_ne_true)]
  simp only [List.append_assoc]

theorem readExtended_eq_ok_iff {version : Int32} {tx : Transaction} :
    readExtended version bs = .ok (tx, rest) ↔
      tx.version = version ∧ tx.Fits ∧ tx.isExtended = true ∧
        bs = 0x01 :: (encodeList TxInput.encode tx.inputs ++
          (encodeList TxOutput.encode tx.outputs ++
            (encodeWitnesses tx.inputs ++ (ofNatLE 4 tx.lockTime.toNat ++ rest)))) := by
  rw [isExtended_iff]
  simp only [readExtended, bind_eq_ok_iff, word_undoes 1 _ _ _, word_undoes 4 _ _ _, throw_bind,
    ite_throw_eq_ok_iff, readList_undoes TxInput.read_undoes _ _ _,
    readList_undoes TxOutput.read_undoes _ _ _, readWitnesses_eq_ok_iff, pure_eq_ok_iff,
    Decidable.not_not, ne_eq]
  constructor
  · rintro ⟨_, _, ⟨-, rfl⟩, rfl, bare, _, ⟨⟨hCount, hBare⟩, rfl⟩, outputs, _,
      ⟨⟨hOutputCount, hOutputs⟩, rfl⟩, inputs, _, ⟨hSame, hWitnesses, rfl⟩, hNeeded, lockTime, _,
      ⟨hLockTime, rfl⟩, rfl, rfl⟩
    -- what was read in front of the outputs are the inputs, but for their witnesses
    rw [TxInput.map_bare_eq_self fun input hMem => (hBare input hMem).2] at hSame
    subst hSame
    rw [List.length_map] at hCount
    rw [List.forall_mem_map] at hBare
    rw [TxInput.encodeList_map_bare, UInt32.toNat_ofNat_of_lt' hLockTime]
    exact ⟨rfl, ⟨hCount, fun input hMem => ⟨(hBare input hMem).1, hWitnesses input hMem⟩,
      hOutputCount, hOutputs⟩, hNeeded, rfl⟩
  · rintro ⟨rfl, hFits, hNeeded, rfl⟩
    refine ⟨1, _, ⟨by decide, rfl⟩, rfl, tx.inputs.map TxInput.bare, _, ⟨⟨?_, ?_⟩, ?_⟩, tx.outputs,
      _, ⟨⟨hFits.length_outputs, hFits.outputs⟩, rfl⟩, tx.inputs, _, ⟨?_, ?_, rfl⟩, hNeeded,
      tx.lockTime.toNat, rest, ⟨tx.lockTime.toNat_lt, rfl⟩, ?_, rfl⟩
    · rw [List.length_map]
      exact hFits.length_inputs
    · rw [List.forall_mem_map]
      exact fun input hMem => ⟨(hFits.inputs input hMem).1, rfl⟩
    · rw [TxInput.encodeList_map_bare]
      rfl
    · rw [List.map_map]
      rfl
    · exact fun input hMem => (hFits.inputs input hMem).2
    · rw [UInt32.ofNat_toNat]

/-- Takes what stands behind the inputs in the plain form. -/
def readPlain (version : Int32) (inputs : List TxInput) : Wire.Reader Transaction := do
  let outputs ← Wire.readList TxOutput.read
  let lockTime ← Wire.Reader.word 4
  pure ⟨version, inputs, outputs, UInt32.ofNat lockTime⟩

theorem readPlain_eq_ok_iff {version : Int32} {inputs : List TxInput} {tx : Transaction} :
    readPlain version inputs bs = .ok (tx, rest) ↔
      tx.version = version ∧ tx.inputs = inputs ∧
        (tx.outputs.length < 2 ^ 64 ∧ ∀ output ∈ tx.outputs, output.locking.length < 2 ^ 64) ∧
        bs = encodeList TxOutput.encode tx.outputs ++ (ofNatLE 4 tx.lockTime.toNat ++ rest) := by
  simp only [readPlain, bind_eq_ok_iff, word_undoes 4 _ _ _,
    readList_undoes TxOutput.read_undoes _ _ _, pure_eq_ok_iff]
  constructor
  · rintro ⟨outputs, _, ⟨hOutputs, rfl⟩, lockTime, _, ⟨hLockTime, rfl⟩, rfl, rfl⟩
    rw [UInt32.toNat_ofNat_of_lt' hLockTime]
    exact ⟨rfl, rfl, hOutputs, rfl⟩
  · rintro ⟨rfl, rfl, hOutputs, rfl⟩
    refine ⟨tx.outputs, _, ⟨hOutputs, rfl⟩, tx.lockTime.toNat, rest, ⟨tx.lockTime.toNat_lt, rfl⟩,
      ?_, rfl⟩
    rw [UInt32.ofNat_toNat]

/-- The inputs that are listed behind the version tell which form it is. -/
theorem read_eq_ok_iff {tx : Transaction} :
    read bs = .ok (tx, rest) ↔
      ∃ (version : Int32) (inputs : List TxInput) (more : Bytes),
        (inputs.length < 2 ^ 64 ∧
          ∀ input ∈ inputs, input.unlocking.length < 2 ^ 64 ∧ input.witness = []) ∧
        bs = encodeVersion version ++ (encodeList TxInput.encode inputs ++ more) ∧
        (if inputs.isEmpty then readExtended version else readPlain version inputs) more =
          .ok (tx, rest) := by
  simp only [read, bind_eq_ok_iff, word_undoes 4 _ _ _, readList_undoes TxInput.read_undoes _ _ _]
  constructor
  · rintro ⟨version, _, ⟨hVersion, rfl⟩, inputs, more, ⟨hInputs, rfl⟩, hForm⟩
    refine ⟨(UInt32.ofNat version).toInt32, inputs, more, hInputs, ?_, hForm⟩
    rw [encodeVersion, UInt32.toUInt32_toInt32, UInt32.toNat_ofNat_of_lt' hVersion]
  · rintro ⟨version, inputs, more, hInputs, rfl, hForm⟩
    refine ⟨version.toUInt32.toNat, _, ⟨version.toUInt32.toNat_lt, rfl⟩, inputs, more,
      ⟨hInputs, rfl⟩, ?_⟩
    rw [UInt32.ofNat_toNat, Int32.toInt32_toUInt32]
    exact hForm

/-- **A transaction is read in the form that it is written in, and in no other.** -/
theorem read_undoes : read.Undoes encode Fits := by
  intro bs tx rest
  rw [read_eq_ok_iff]
  constructor
  · rintro ⟨version, inputs, more, ⟨hCount, hInputs⟩, rfl, hForm⟩
    split at hForm
    · next hEmpty =>
      -- a count of zero is the marker
      obtain rfl := List.isEmpty_iff.1 hEmpty
      obtain ⟨rfl, hFits, hExtended, rfl⟩ := readExtended_eq_ok_iff.1 hForm
      rw [encode_append_of_extended hExtended]
      exact ⟨hFits, rfl⟩
    · next hSome =>
      obtain ⟨rfl, rfl, ⟨hOutputCount, hOutputs⟩, rfl⟩ := readPlain_eq_ok_iff.1 hForm
      have hNone : ∀ input ∈ tx.inputs, input.witness = [] := fun input hMem =>
        (hInputs input hMem).2
      have hFits : ∀ input ∈ tx.inputs, input.Fits := by
        intro input hMem
        rw [TxInput.Fits, hNone input hMem]
        exact ⟨(hInputs input hMem).1, Witness.fits_nil⟩
      rw [encode_append_of_not_extended (isExtended_eq_false_iff.2 ⟨hSome, hNone⟩)]
      exact ⟨⟨hCount, hFits, hOutputCount, hOutputs⟩, rfl⟩
  · rintro ⟨hFits, rfl⟩
    by_cases hExtended : tx.isExtended = true
    · rw [encode_append_of_extended hExtended]
      exact ⟨tx.version, [], _, ⟨by decide, nofun⟩, rfl,
        readExtended_eq_ok_iff.2 ⟨rfl, hFits, hExtended, rfl⟩⟩
    · rw [Bool.not_eq_true] at hExtended
      obtain ⟨hSome, hNone⟩ := isExtended_eq_false_iff.1 hExtended
      rw [encode_append_of_not_extended hExtended]
      refine ⟨tx.version, tx.inputs, _, ⟨hFits.length_inputs, fun input hMem =>
        ⟨(hFits.inputs input hMem).1, hNone input hMem⟩⟩, rfl, ?_⟩
      rw [if_neg hSome]
      exact readPlain_eq_ok_iff.2 ⟨rfl, rfl, ⟨hFits.length_outputs, hFits.outputs⟩, rfl⟩

-- ---------------------------------------------------------------------------
-- Whole transactions
-- ---------------------------------------------------------------------------

/-- Bytes are a transaction just when they are what is written of it. -/
theorem parse_eq_ok_iff {tx : Transaction} : parse bs = .ok tx ↔ tx.Fits ∧ bs = tx.encode := by
  rw [← read_undoes.decodeWhole_eq_ok_iff, parse]
  cases hRead : decodeWhole read bs with
  | error cause => exact ⟨nofun, nofun⟩
  | ok found =>
    have hLength : found.encode.length = bs.length := by
      rw [← (read_undoes.decodeWhole_eq_ok_iff.1 hRead).2]
    dsimp only
    rw [if_neg (not_not.2 hLength), Except.ok.injEq, Except.ok.injEq]

/-- The lengths never differ: what can be read has no other form. -/
theorem parse_ne_nonCanonical (bs : Bytes) : parse bs ≠ .error .nonCanonical := by
  rw [parse]
  cases hRead : decodeWhole read bs with
  | error cause => exact nofun
  | ok found =>
    have hLength : found.encode.length = bs.length := by
      rw [← (read_undoes.decodeWhole_eq_ok_iff.1 hRead).2]
    dsimp only
    rw [if_neg (not_not.2 hLength)]
    exact nofun

/-- **Transactions have one form.** The byte strings that are parsed are those that are
written, of the transactions that can be written at all. So a transaction that is parsed is
written in the very bytes it came from, and never in a form of another length; no other bytes
are parsed as that transaction; and neither a front of these bytes nor any continuation is
parsed as a transaction. -/
theorem parse_canonical (bs : Bytes) :
    parse bs ≠ .error .nonCanonical ∧
    ∀ tx, (parse bs = .ok tx ↔ tx.Fits ∧ tx.encode = bs) ∧
      (parse bs = .ok tx →
        (∀ other, parse other = .ok tx → other = bs) ∧
        ∀ other tx', parse other = .ok tx' → other <+: bs ∨ bs <+: other → other = bs) := by
  refine ⟨parse_ne_nonCanonical bs, fun tx => ⟨?_, fun hParse => ⟨?_, ?_⟩⟩⟩
  · rw [parse_eq_ok_iff, eq_comm (a := bs)]
  · intro other hOther
    rw [(parse_eq_ok_iff.1 hOther).2, (parse_eq_ok_iff.1 hParse).2]
  · intro other tx' hOther hPrefix
    obtain ⟨hFits, rfl⟩ := parse_eq_ok_iff.1 hParse
    obtain ⟨hFits', rfl⟩ := parse_eq_ok_iff.1 hOther
    rcases hPrefix with hFront | hMore
    · rw [read_undoes.eq_of_prefix hFits' hFits hFront]
    · rw [read_undoes.eq_of_prefix hFits hFits' hMore]

/-- A transaction in the extended form, whose one input has a witness of two items. -/
theorem parse_canonical_witness :
    let tx : Transaction := {
      version := 2
      inputs := [⟨⟨⟨List.replicate 32 0xaa, by decide⟩, 3⟩, [0x51], 0xffffffff, [[0x07], []]⟩]
      outputs := [⟨5, [0x52, 0x53]⟩]
      lockTime := 9 }
    let bs : Bytes := [0x02, 0, 0, 0] ++ [0x00, 0x01]
      ++ [0x01] ++ List.replicate 32 0xaa ++ [3, 0, 0, 0, 0x01, 0x51, 0xff, 0xff, 0xff, 0xff]
      ++ [0x01, 5, 0, 0, 0, 0, 0, 0, 0, 0x02, 0x52, 0x53]
      ++ [0x02, 0x01, 0x07, 0x00] ++ [9, 0, 0, 0]
    parse bs = .ok tx ∧ tx.Fits ∧ tx.encode = bs ∧ (∀ other, parse other = .ok tx → other = bs) ∧
      (∀ n < bs.length, ∀ tx', parse (bs.take n) ≠ .ok tx') ∧
      ∀ byte tx', parse (bs ++ [byte]) ≠ .ok tx' := by
  intro tx bs
  have hParse : parse bs = .ok tx := by decide +kernel
  obtain ⟨-, hCanonical⟩ := parse_canonical bs
  obtain ⟨hForm, hUnique⟩ := hCanonical tx
  obtain ⟨hOnly, hPrefix⟩ := hUnique hParse
  obtain ⟨hFits, hEncode⟩ := hForm.1 hParse
  refine ⟨hParse, hFits, hEncode, hOnly, ?_, ?_⟩
  · intro n hShort tx' hFront
    have hSame := congrArg List.length (hPrefix _ tx' hFront (.inl (List.take_prefix n bs)))
    rw [List.length_take] at hSame
    omega
  · intro byte tx' hMore
    have hSame := congrArg List.length (hPrefix _ tx' hMore (.inr (List.prefix_append bs [byte])))
    rw [List.length_append, List.length_singleton] at hSame
    omega

end Transaction

end LegacyScript
