import LegacyScript.Proofs.Number.Codec
import LegacyScript.Proofs.Signature.Tests

/-!
# How a test of several signatures ends

`OP_CHECKMULTISIG` takes a number of keys, the keys, a number of signatures, the signatures,
and one element more. Either number may be missing, too long or out of range, and the stack
may hold less than the numbers announce. What was taken up to there is gone.

Three relations say how it ends, without running it: taking a count (`CountEnds`), taking the
operands behind the first count (`OperandsEnd`), and the whole test (`MultiSigEnds`). Each of
them has an ending for every stack, and what is run comes to that ending. So the test ends in
one way just when the stack and the budget are as that way demands.

## Results

* `popCount_eq_iff`, `takeMany_eq_iff`, `testSignatures_eq_iff` — the endings of each part.
* `checkMultiSig_endings` — the endings of the operation, and what it does when it completes.
-/

namespace LegacyScript

open StackM MachineM

/-- Where there is an ending, and what is run comes to each ending that there is, the endings
tell what is run. -/
theorem eq_iff_ends {α : Type} {ran outcome : α} {Ends : α → Prop} (hSome : ∃ one, Ends one)
    (hRan : ∀ {one}, Ends one → ran = one) : ran = outcome ↔ Ends outcome := by
  refine ⟨?_, hRan⟩
  rintro rfl
  obtain ⟨one, hEnds⟩ := hSome
  rw [hRan hEnds]
  exact hEnds

-- ---------------------------------------------------------------------------
-- Counts
-- ---------------------------------------------------------------------------

/-- How it ends to take a count of `limit` at most from the top of a stack. A count that is
not in the range fails with `cause`. -/
inductive CountEnds (limit : Nat) (cause : ScriptError) :
    Stack → EStateM.Result ScriptError Stack Nat → Prop
  | missing : CountEnds limit cause [] (.error .invalidStackOperation [])
  | tooLong {top : Bytes} {s : Stack} (hSize : 4 < top.length) :
      CountEnds limit cause (top :: s) (.error .numOverflow s)
  | outside {top : Bytes} {s : Stack} (hSize : top.length ≤ 4)
      (hRange : Number.decode top < 0 ∨ limit < Number.decode top) :
      CountEnds limit cause (top :: s) (.error cause s)
  | counted {top : Bytes} {s : Stack} {n : Nat} (hSize : top.length ≤ 4)
      (hCount : Number.decode top = n) (hLimit : n ≤ limit) :
      CountEnds limit cause (top :: s) (.ok n s)

section Counts

variable {limit : Nat} {cause : ScriptError} {s : Stack}
  {outcome : EStateM.Result ScriptError Stack Nat}

theorem exists_countEnds (limit : Nat) (cause : ScriptError) (s : Stack) :
    ∃ outcome, CountEnds limit cause s outcome := by
  cases s with
  | nil => exact ⟨_, .missing⟩
  | cons top s =>
    rcases Nat.lt_or_ge 4 top.length with hLong | hSize
    · exact ⟨_, .tooLong hLong⟩
    · by_cases hRange : Number.decode top < 0 ∨ limit < Number.decode top
      · exact ⟨_, .outside hSize hRange⟩
      · have hCount : Number.decode top = (Number.decode top).toNat := by omega
        exact ⟨_, .counted hSize hCount (by omega)⟩

theorem CountEnds.popCount_eq (h : CountEnds limit cause s outcome) :
    popCount limit cause s = outcome := by
  cases h with
  | missing => rfl
  | tooLong hLong => exact bind_of_error (popNumber_of_lt hLong)
  | @outside top s hSize hRange =>
    have hParse : Number.parse top Number.maxSize = .ok (Number.decode top) :=
      Number.parse_eq_ok_iff.2 ⟨hSize, rfl⟩
    have hNot : ¬(0 ≤ Number.decode top ∧ Number.decode top ≤ limit) := by omega
    unfold popCount
    rw [bind_of_ok (popNumber_of_parse hParse), if_neg hNot]
    rfl
  | counted hSize hCount hLimit =>
    exact popCount_of_parse (Number.parse_eq_ok_iff.2 ⟨hSize, hCount⟩) hLimit

/-- **How taking a count ends.** -/
theorem popCount_eq_iff : popCount limit cause s = outcome ↔ CountEnds limit cause s outcome :=
  eq_iff_ends (exists_countEnds limit cause s) CountEnds.popCount_eq

end Counts

-- ---------------------------------------------------------------------------
-- Operands
-- ---------------------------------------------------------------------------

/-- How it ends to take the operands of a test from a stack, behind the number of keys. -/
inductive OperandsEnd (keyCount : Nat) (s : Stack) :
    EStateM.Result ScriptError Stack Operands → Prop
  /-- There are not as many keys, or nothing is below them. -/
  | fewKeys (hFew : s.length < keyCount + 1) :
      OperandsEnd keyCount s (.error .invalidStackOperation s)
  /-- Below the keys is no number of signatures. -/
  | badCount {pubkeys : List Bytes} {behind left : Stack} {cause : ScriptError}
      (hStack : s = pubkeys ++ behind) (hKeys : pubkeys.length = keyCount) (hMore : behind ≠ [])
      (hCount : CountEnds keyCount .sigCount behind (.error cause left)) :
      OperandsEnd keyCount s (.error cause left)
  /-- There are not as many signatures, or nothing is below them. -/
  | fewSignatures {pubkeys : List Bytes} {behind left : Stack} {n : Nat}
      (hStack : s = pubkeys ++ behind) (hKeys : pubkeys.length = keyCount)
      (hCount : CountEnds keyCount .sigCount behind (.ok n left)) (hFew : left.length < n + 1) :
      OperandsEnd keyCount s (.error .invalidStackOperation left)
  /-- All operands are there, and one element more. -/
  | taken {pubkeys signatures : List Bytes} {behind below : Stack} {extra : Bytes}
      (hStack : s = pubkeys ++ behind) (hKeys : pubkeys.length = keyCount)
      (hCount : CountEnds keyCount .sigCount behind
        (.ok signatures.length (signatures ++ extra :: below))) :
      OperandsEnd keyCount s (.ok ⟨signatures, pubkeys⟩ below)

section TakingOperands

variable {keyCount : Nat} {s : Stack} {outcome : EStateM.Result ScriptError Stack Operands}

theorem exists_operandsEnd (keyCount : Nat) (s : Stack) :
    ∃ outcome, OperandsEnd keyCount s outcome := by
  rcases Nat.lt_or_ge s.length (keyCount + 1) with hFew | hMany
  · exact ⟨_, .fewKeys hFew⟩
  · obtain ⟨pubkeys, top, below, hStack, hKeys⟩ := exists_split_of_lt hMany
    obtain ⟨outcome, hCount⟩ := exists_countEnds keyCount .sigCount (top :: below)
    cases outcome with
    | error cause left => exact ⟨_, .badCount hStack hKeys (List.cons_ne_nil top below) hCount⟩
    | ok n left =>
      rcases Nat.lt_or_ge left.length (n + 1) with hFew | hEnough
      · exact ⟨_, .fewSignatures hStack hKeys hCount hFew⟩
      · obtain ⟨signatures, extra, rest, rfl, rfl⟩ := exists_split_of_lt hEnough
        exact ⟨_, .taken hStack hKeys hCount⟩

/-- Up to the number of signatures, all lines answer where something is below the keys. -/
theorem takeMany_of_append {pubkeys : List Bytes} {behind : Stack} (hMore : behind ≠ []) :
    takeMany pubkeys.length (pubkeys ++ behind) =
      (popCount pubkeys.length .sigCount >>= fun signatureCount =>
        require (signatureCount + 1) >>= fun _ => popMany signatureCount >>= fun signatures =>
          pop >>= fun _ => pure ⟨signatures, pubkeys⟩) behind := by
  have hHeight : pubkeys.length + 1 ≤ (pubkeys ++ behind).length := by
    have hPos := List.length_pos_of_ne_nil hMore
    rw [List.length_append]
    omega
  unfold takeMany
  rw [bind_of_ok (require_of_le hHeight), bind_of_ok (popMany_append pubkeys behind)]

theorem OperandsEnd.takeMany_eq (h : OperandsEnd keyCount s outcome) :
    takeMany keyCount s = outcome := by
  cases h with
  | fewKeys hFew => exact bind_of_error (require_of_lt hFew)
  | badCount hStack hKeys hMore hCount =>
    subst hStack hKeys
    rw [takeMany_of_append hMore, bind_of_error hCount.popCount_eq]
  | @fewSignatures pubkeys behind left n hStack hKeys hCount hFew =>
    subst hStack hKeys
    have hMore : behind ≠ [] := by
      rintro rfl
      cases hCount
    rw [takeMany_of_append hMore, bind_of_ok hCount.popCount_eq,
      bind_of_error (require_of_lt hFew)]
  | @taken pubkeys signatures behind below extra hStack hKeys hCount =>
    subst hStack hKeys
    have hMore : behind ≠ [] := by
      rintro rfl
      cases hCount
    have hEnough : signatures.length + 1 ≤ (signatures ++ extra :: below).length := by
      rw [List.length_append, List.length_cons]
      omega
    rw [takeMany_of_append hMore, bind_of_ok hCount.popCount_eq,
      bind_of_ok (require_of_le hEnough), bind_of_ok (popMany_append signatures _),
      bind_of_ok (pop_cons extra below)]
    rfl

/-- **How taking the operands ends.** -/
theorem takeMany_eq_iff : takeMany keyCount s = outcome ↔ OperandsEnd keyCount s outcome :=
  eq_iff_ends (exists_operandsEnd keyCount s) OperandsEnd.takeMany_eq

end TakingOperands

-- ---------------------------------------------------------------------------
-- The whole test
-- ---------------------------------------------------------------------------

/-- How a test of several signatures ends. On failure the checker was asked nothing, and of the
machine only what was taken from the main stack and counted is different. -/
inductive MultiSigEnds (rules : Rules) (script : Script) (m : Machine) :
    EStateM.Result ScriptError Machine Unit → Prop
  /-- On top is no number of keys. -/
  | badKeyCount {left : Stack} {cause : ScriptError}
      (hCount : CountEnds Machine.maxPubkeys .pubkeyCount m.stack (.error cause left)) :
      MultiSigEnds rules script m (.error cause { m with stack := left })
  /-- The keys do not fit the budget of operations. -/
  | overdrawn {behind : Stack} {n : Nat}
      (hCount : CountEnds Machine.maxPubkeys .pubkeyCount m.stack (.ok n behind))
      (hOps : Machine.maxOps < m.opCount + n) :
      MultiSigEnds rules script m
        (.error .opCount { m with stack := behind, opCount := m.opCount + n })
  /-- The operands are not all there. -/
  | badOperands {behind left : Stack} {n : Nat} {cause : ScriptError}
      (hCount : CountEnds Machine.maxPubkeys .pubkeyCount m.stack (.ok n behind))
      (hOps : m.opCount + n ≤ Machine.maxOps)
      (hOperands : OperandsEnd n behind (.error cause left)) :
      MultiSigEnds rules script m
        (.error cause { m with stack := left, opCount := m.opCount + n })
  /-- The verdict takes the place of the operands. -/
  | answered {behind below : Stack} {n : Nat} {operands : Operands}
      (hCount : CountEnds Machine.maxPubkeys .pubkeyCount m.stack (.ok n behind))
      (hOps : m.opCount + n ≤ Machine.maxOps)
      (hOperands : OperandsEnd n behind (.ok operands below)) :
      MultiSigEnds rules script m (.ok () { m with
        stack := (if (operands.outcome rules script m).verdict then [1] else []) :: below
        opCount := m.opCount + n
        calls := m.calls ++ (operands.outcome rules script m).calls })

section WholeTest

variable {rules : Rules} {script : Script} {m : Machine}
  {outcome : EStateM.Result ScriptError Machine Unit}

theorem exists_multiSigEnds (rules : Rules) (script : Script) (m : Machine) :
    ∃ outcome, MultiSigEnds rules script m outcome := by
  obtain ⟨count, hCount⟩ := exists_countEnds Machine.maxPubkeys .pubkeyCount m.stack
  cases count with
  | error cause left => exact ⟨_, .badKeyCount hCount⟩
  | ok n behind =>
    rcases Nat.lt_or_ge Machine.maxOps (m.opCount + n) with hLt | hLe
    · exact ⟨_, .overdrawn hCount hLt⟩
    · obtain ⟨taken, hOperands⟩ := exists_operandsEnd n behind
      cases taken with
      | error cause left => exact ⟨_, .badOperands hCount hLe hOperands⟩
      | ok operands below => exact ⟨_, .answered hCount hLe hOperands⟩

/-- Behind a number of keys that fits the budget, the operands are taken and asked about. -/
theorem testSignatures_of_counted {behind : Stack} {n : Nat}
    (hCount : CountEnds Machine.maxPubkeys .pubkeyCount m.stack (.ok n behind))
    (hOps : m.opCount + n ≤ Machine.maxOps) :
    testSignatures rules script m =
      (onStack (takeMany n) >>= fun operands => operands.ask rules script)
        { m with stack := behind, opCount := m.opCount + n } := by
  have hAdd : addOps n { m with stack := behind } =
      .ok () { m with stack := behind, opCount := m.opCount + n } := addOps_of_le hOps
  rw [testSignatures_eq, bind_of_ok (onStack_of_ok hCount.popCount_eq), bind_of_ok hAdd]

theorem MultiSigEnds.testSignatures_eq (h : MultiSigEnds rules script m outcome) :
    testSignatures rules script m = outcome := by
  cases h with
  | badKeyCount hCount => exact bind_of_error (onStack_of_error hCount.popCount_eq)
  | @overdrawn behind n hCount hOps =>
    have hAdd : addOps n { m with stack := behind } =
        .error .opCount { m with stack := behind, opCount := m.opCount + n } := addOps_of_lt hOps
    rw [LegacyScript.testSignatures_eq, bind_of_ok (onStack_of_ok hCount.popCount_eq),
      bind_of_error hAdd]
  | badOperands hCount hOps hOperands =>
    rw [testSignatures_of_counted hCount hOps]
    exact bind_of_error (onStack_of_error hOperands.takeMany_eq)
  | answered hCount hOps hOperands =>
    rw [testSignatures_of_counted hCount hOps]
    exact bind_of_ok (onStack_of_ok hOperands.takeMany_eq)

/-- **How a test of several signatures ends.** -/
theorem testSignatures_eq_iff :
    testSignatures rules script m = outcome ↔ MultiSigEnds rules script m outcome :=
  eq_iff_ends (exists_multiSigEnds rules script m) MultiSigEnds.testSignatures_eq

/-- Operands that were all taken lie on the stack as their numbers announce. -/
theorem OperandsEnd.exists_stack_eq {n : Nat} {s below : Stack} {operands : Operands}
    (h : OperandsEnd n s (.ok operands below)) :
    ∃ signatureCount extra,
      s = operands.pubkeys ++ signatureCount :: (operands.signatures ++ extra :: below) ∧
        operands.pubkeys.length = n ∧ signatureCount.length ≤ 4 ∧
        Number.decode signatureCount = operands.signatures.length ∧
        operands.signatures.length ≤ n := by
  cases h with
  | @taken pubkeys signatures behind below extra hStack hKeys hCount =>
    cases hCount with
    | @counted top s n hSize hDecode hLimit =>
      exact ⟨top, extra, hStack, hKeys, hSize, hDecode, hLimit⟩

/-- The verdict is the same whatever the element below the signatures is. -/
theorem testSignatures_of_operands {operands : Operands} {keyCount signatureCount : Bytes}
    {below : Stack} (hKeySize : keyCount.length ≤ 4)
    (hKeyCount : Number.decode keyCount = operands.pubkeys.length)
    (hKeys : operands.pubkeys.length ≤ Machine.maxPubkeys) (hSize : signatureCount.length ≤ 4)
    (hCount : Number.decode signatureCount = operands.signatures.length)
    (hFewer : operands.signatures.length ≤ operands.pubkeys.length)
    (hOps : m.opCount + operands.pubkeys.length ≤ Machine.maxOps) (extra : Bytes) :
    testSignatures rules script { m with stack := keyCount ::
        (operands.pubkeys ++ signatureCount :: (operands.signatures ++ extra :: below)) } =
      .ok () { m with
        stack := (if (operands.outcome rules script m).verdict then [1] else []) :: below
        opCount := m.opCount + operands.pubkeys.length
        calls := m.calls ++ (operands.outcome rules script m).calls } :=
  testSignatures_eq_iff.2 (.answered (.counted hKeySize hKeyCount hKeys) hOps
    (.taken rfl rfl (.counted hSize hCount hFewer)))

theorem runItem_of_checkMultiSig {item : Item} (hItem : item.content = .ok (.op 0xae))
    (hRun : m.executing = true) :
    runItem rules script item m =
      (addOps 1 >>= fun _ => (Operation.test .checkMultiSig).execute rules script) m := by
  have hOperation : Opcode.operation? 0xae = some (.test .checkMultiSig) := by decide
  have hCount : countOpcode 0xae = addOps 1 := if_pos (by decide)
  rw [runItem_of_operation hItem hOperation, hCount]
  rcases Nat.lt_or_ge Machine.maxOps (m.opCount + 1) with hLt | hLe
  · rw [bind_of_error (addOps_of_lt hLt), bind_of_error (addOps_of_lt hLt)]
  · have hRunAfter : ({ m with opCount := m.opCount + 1 } : Machine).executing = true := hRun
    rw [bind_of_ok (addOps_of_le hLe), bind_of_ok (addOps_of_le hLe)]
    exact whenExecuting_of_executing hRunAfter

/-- **How `OP_CHECKMULTISIG` ends.** Where it is executed it is counted, and then it comes to
the one ending that the stack and the budget demand. When it completes, it has taken two
counts, as many keys and signatures as they say, at most twenty and no more signatures than
keys, and one element more. It has put one boolean in their place, which is the same for any
such element, and counted the keys. Nothing else is different but what the checker was
asked. -/
theorem checkMultiSig_endings (rules : Rules) (script : Script) (m : Machine) :
    let test := (Operation.test .checkMultiSig).execute rules script
    (∀ item : Item, item.content = .ok (.op 0xae) → m.executing = true →
      runItem rules script item m = (addOps 1 >>= fun _ => test) m) ∧
    (∀ outcome, test m = outcome ↔ MultiSigEnds rules script m outcome) ∧
    ∀ after, test m = .ok () after →
      ∃ (keyCount signatureCount extra : Bytes) (pubkeys signatures : List Bytes) (below : Stack)
        (verdict : Bool),
        let stackWith := fun other : Bytes =>
          keyCount :: (pubkeys ++ signatureCount :: (signatures ++ other :: below))
        m.stack = stackWith extra ∧
          m.stack.length = pubkeys.length + signatures.length + 3 + below.length ∧
          Number.decode keyCount = pubkeys.length ∧
          Number.decode signatureCount = signatures.length ∧
          signatures.length ≤ pubkeys.length ∧ pubkeys.length ≤ 20 ∧
          after = { m with
            stack := (if verdict then [1] else []) :: below
            opCount := m.opCount + pubkeys.length
            calls := after.calls } ∧
          ∀ other, test { m with stack := stackWith other } = .ok () after := by
  intro test
  refine ⟨fun item hItem hRun => runItem_of_checkMultiSig hItem hRun,
    fun outcome => testSignatures_eq_iff, fun after hOk => ?_⟩
  have hEnds : MultiSigEnds rules script m (.ok () after) := testSignatures_eq_iff.1 hOk
  cases hEnds with
  | @answered behind below n operands hCount hOps hOperands =>
    obtain ⟨signatureCount, extra, hBehind, rfl, hSize, hSignatures, hFewer⟩ :=
      hOperands.exists_stack_eq
    generalize hStack : m.stack = stack at hCount
    cases hCount with
    | @counted keyCount s n hKeySize hKeyCount hKeys =>
      refine ⟨keyCount, signatureCount, extra, operands.pubkeys, operands.signatures, below,
        (operands.outcome rules script m).verdict, ?_, ?_, hKeyCount, hSignatures, hFewer, hKeys,
        rfl, testSignatures_of_operands hKeySize hKeyCount hKeys hSize hSignatures hFewer hOps⟩
      · rw [hBehind]
      · rw [hBehind]
        simp only [List.length_cons, List.length_append]
        omega

/-- One signature for two keys, and a seven below it: six elements give way to one. -/
theorem checkMultiSig_endings_oneOfTwo :
    let rules : Rules := ⟨{ checkSig := fun _ _ _ => true }, Flags.none⟩
    let m : Machine := Machine.ofStack [[2], [0xaa], [0xbb], [1], [0xcc], [7], [9]]
    let item : Item := ⟨0, 0xae, [], .ok (.op 0xae)⟩
    let test := (Operation.test .checkMultiSig).execute rules [0xae]
    let after := leaves test m
    item.content = .ok (.op 0xae) ∧ m.executing = true ∧
      runItem rules [0xae] item m = (addOps 1 >>= fun _ => test) m ∧
      test m = .ok () after ∧ after.stack = [[1], [9]] ∧
      ∃ (pubkeys signatures : List Bytes) (below : Stack), pubkeys.length = 2 ∧
        signatures.length ≤ pubkeys.length ∧ below = [[9]] ∧
        m.stack.length = pubkeys.length + signatures.length + 3 + below.length := by
  intro rules m item test after
  have hItem : item.content = .ok (.op 0xae) := rfl
  have hRun : m.executing = true := rfl
  have hTest : test m = .ok () after := rfl
  have hStack : after.stack = [[1], [9]] := by decide +kernel
  have hOps : after.opCount = 2 := by decide +kernel
  obtain ⟨hCounted, -, hDone⟩ := checkMultiSig_endings rules [0xae] m
  obtain ⟨-, -, -, pubkeys, signatures, below, verdict, -, hLength, -, -, hFewer, -, hAfter, -⟩ :=
    hDone after hTest
  have hKeys : pubkeys.length = 2 := by
    have hCount : after.opCount = 0 + pubkeys.length := congrArg Machine.opCount hAfter
    omega
  have hBelow : below = [[9]] := by
    have hLeft : after.stack = _ :: below := congrArg Machine.stack hAfter
    exact (List.cons.inj (hLeft.symm.trans hStack)).2
  exact ⟨hItem, hRun, hCounted item hItem hRun, hTest, hStack, pubkeys, signatures, below, hKeys,
    hFewer, hBelow, hLength⟩

end WholeTest

end LegacyScript
