import LegacyScript.Checker
import LegacyScript.Proofs.Script.Segments

/-!
# Stripping code separators

What a signature signs leaves out the code separators, and nothing else. A script is a row
of instructions with bytes behind it that cannot be decoded; stripping takes the separators
out of the row, and the bytes behind it stay. Since a row of instructions is read one by one
whatever stands behind it, no instruction moves into another, and decoding fails where it
failed and as it failed.

So two scripts that are read alike but for code separators become the same script, and a
signature over one is a signature over the other.

## Results

* `stripCodeSeparators_eq`            — what is left is the bytes of the other segments.
* `segments_stripCodeSeparators`      — what is left is read as the other segments.
* `stripCodeSeparators_eq_self_iff`   — stripping takes code separators only.
* `stripping_exact`                   — all of this, and what follows for signatures.
-/

namespace LegacyScript.Script

variable {script : Script}

/-- Whether a segment is a code separator. -/
def Segment.isSeparator (segment : Segment) : Bool :=
  segment.1 = .ok (.op Opcode.codeSeparator)

/-- What a script is read as, but for code separators. -/
def essence (script : Script) : List Segment :=
  script.segments.filter (!·.isSeparator)

-- ---------------------------------------------------------------------------
-- The bytes that are left
-- ---------------------------------------------------------------------------

/-- Stripping keeps the bytes of all items but the code separators. -/
theorem stripItems_eq {items : List Item}
    (hLast : ∀ front item rest, items = front ++ item :: rest → item.content.isOk = false →
      rest = []) :
    stripItems script items =
      ((items.map fun item => (item.content, item.extent script)).filter
        (!Segment.isSeparator ·)).flatMap Prod.snd := by
  induction items with
  | nil => rfl
  | cons item items ih =>
    have hBehind := ih fun front other rest hSplit =>
      hLast (item :: front) other rest (congrArg (item :: ·) hSplit)
    rw [stripItems, List.map_cons]
    cases hContent : item.content with
    | error cause =>
      have hBad : item.content.isOk = false := by
        rw [hContent]
        rfl
      -- it is the last item, and all bytes from here on are its own
      obtain rfl := hLast [] item items rfl hBad
      rw [extent_of_not_ok hBad]
      simp [Segment.isSeparator]
    | ok instruction =>
      have hOk : item.content.isOk = true := by
        rw [hContent]
        rfl
      dsimp only
      rw [hBehind, extent_of_ok hOk]
      by_cases hSeparator : instruction = .op Opcode.codeSeparator
      · rw [if_pos hSeparator, List.filter_cons_of_neg (by simp [Segment.isSeparator, hSeparator])]
      · rw [if_neg hSeparator, List.filter_cons_of_pos (by simp [Segment.isSeparator, hSeparator]),
          List.flatMap_cons]

theorem stripCodeSeparators_eq (script : Script) :
    script.stripCodeSeparators = script.essence.flatMap Prod.snd :=
  stripItems_eq (tiled_items script).error_last

-- ---------------------------------------------------------------------------
-- What is left is read as it was
-- ---------------------------------------------------------------------------

/-- **Stripping takes the code separators out of what is read**, and keeps the rest of it. -/
theorem segments_stripCodeSeparators (script : Script) :
    script.stripCodeSeparators.segments = script.essence := by
  obtain ⟨row, tail, hSegments, hRow, hTail⟩ := exists_row script
  have hRest : tail.segments.filter (!Segment.isSeparator ·) = tail.segments := by
    refine List.filter_eq_self.2 fun segment hMem => ?_
    have hError := hTail segment hMem
    simp only [Segment.isSeparator, Bool.not_eq_true', decide_eq_false_iff_not]
    intro hContent
    rw [hContent] at hError
    cases hError
  have hEssence : script.essence = row.filter (!Segment.isSeparator ·) ++ tail.segments := by
    rw [essence, hSegments, List.filter_append, hRest]
  rw [stripCodeSeparators_eq, hEssence, List.flatMap_append, flatMap_segments]
  exact segments_flatMap (fun segment hMem => hRow segment (List.mem_of_mem_filter hMem)) tail

/-- Stripping changes nothing just when there is no code separator. -/
theorem stripCodeSeparators_eq_self_iff : script.stripCodeSeparators = script ↔
    ∀ item ∈ script.items, item.content ≠ .ok (.op Opcode.codeSeparator) := by
  have hNone : (∀ segment ∈ script.segments, (!segment.isSeparator) = true) ↔
      ∀ item ∈ script.items, item.content ≠ .ok (.op Opcode.codeSeparator) := by
    rw [segments, List.forall_mem_map]
    simp only [Segment.isSeparator, Bool.not_eq_true', decide_eq_false_iff_not, ne_eq]
  rw [← hNone, ← List.filter_eq_self]
  constructor
  · intro hSelf
    have hSegments := segments_stripCodeSeparators script
    rw [hSelf] at hSegments
    exact hSegments.symm
  · intro hSegments
    rw [stripCodeSeparators_eq, essence, hSegments, flatMap_segments]

/-- What is left has no code separator any more. -/
theorem stripCodeSeparators_idem (script : Script) :
    script.stripCodeSeparators.stripCodeSeparators = script.stripCodeSeparators := by
  rw [stripCodeSeparators_eq script.stripCodeSeparators, essence, segments_stripCodeSeparators,
    essence, List.filter_filter]
  simp only [Bool.and_self]
  exact (stripCodeSeparators_eq script).symm

/-- **Stripping is exact.** What is left of a script is read as the script is, with the same
error at the end if there is one, but for the code separators: each other instruction keeps
its bytes, and so do all bytes from where decoding fails. To strip again changes nothing,
and to strip at all only where there is a code separator. So the signature of any input of a
transaction is good for both or for none of two script codes that are read alike but for
code separators. -/
theorem stripping_exact (script : Script) :
    script.stripCodeSeparators.segments = script.segments.filter (!·.isSeparator) ∧
      script.stripCodeSeparators.stripCodeSeparators = script.stripCodeSeparators ∧
      (script.stripCodeSeparators = script ↔
        ∀ item ∈ script.items, item.content ≠ .ok (.op Opcode.codeSeparator)) ∧
      ∀ other : Script,
        script.segments.filter (!·.isSeparator) = other.segments.filter (!·.isSeparator) →
        ∀ (tx : Transaction) (index : Nat) (demanded : UInt32) (signature pubkey : Bytes),
          (tx.checker index demanded).checkSig signature pubkey script =
            (tx.checker index demanded).checkSig signature pubkey other := by
  refine ⟨segments_stripCodeSeparators script, stripCodeSeparators_idem script,
    stripCodeSeparators_eq_self_iff, ?_⟩
  intro other hAlike tx index demanded signature pubkey
  have hStripped : script.stripCodeSeparators = other.stripCodeSeparators := by
    rw [stripCodeSeparators_eq, stripCodeSeparators_eq]
    exact congrArg (List.flatMap Prod.snd) hAlike
  change tx.checkSig index demanded signature pubkey script =
    tx.checkSig index demanded signature pubkey other
  rw [Transaction.checkSig, Transaction.checkSig, hStripped]

/-- Separators go in front of a push and behind it. The bytes 0xab of the pushed data stay,
and so does the one behind a length that announces too much. -/
theorem stripping_exact_cutOff :
    let script : Script := [0x51, 0xab, 0x02, 0xab, 0x01, 0xab, 0x05, 0xab]
    let other : Script := [0xab, 0x51, 0x02, 0xab, 0x01, 0xab, 0xab, 0x05, 0xab]
    let tx : Transaction := {
      version := 1
      inputs := [⟨⟨⟨List.replicate 32 0xaa, by decide⟩, 0⟩, [], 0xffffffff, []⟩]
      outputs := []
      lockTime := 0 }
    script.segments.filter (!·.isSeparator) = other.segments.filter (!·.isSeparator) ∧
      script.stripCodeSeparators.segments = [(.ok (.op 0x51), [0x51]),
        (.ok (.push [0xab, 0x01]), [0x02, 0xab, 0x01]), (.error .pushPastEnd, [0x05, 0xab])] ∧
      script.stripCodeSeparators ≠ script ∧
      (tx.checker 0 0).checkSig [0x30, 0x01] [0x02] script =
        (tx.checker 0 0).checkSig [0x30, 0x01] [0x02] other := by
  intro script other tx
  have hAlike : script.segments.filter (!·.isSeparator) =
      other.segments.filter (!·.isSeparator) := by decide +kernel
  obtain ⟨hSegments, -, hSelf, hSignatures⟩ := stripping_exact script
  refine ⟨hAlike, ?_, ?_, hSignatures other hAlike tx 0 0 _ _⟩
  · rw [hSegments]
    decide +kernel
  · rw [ne_eq, hSelf]
    decide +kernel

end LegacyScript.Script
