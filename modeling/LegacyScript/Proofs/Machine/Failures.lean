import LegacyScript.Proofs.Machine.Operations
import LegacyScript.Proofs.Stack.Demands

/-!
# What a failure leaves of the main stack

The main stack that a failed script leaves can be seen from outside. For most causes it is the
stack from before the item that failed: the cause is found before anything is taken. It is
otherwise where an operand that was taken turns out to be none, where a demand is not met, and
where `OP_PICK`, `OP_ROLL` and the tests of several signatures take from the stack how far
they reach into it and find that it is not so deep.

The judgements `Enough` and `Guarded` on stacks carry over to machines, where the branches, the
alt stack and the budget come in. So every item is guarded but for those four opcodes, and
those fail for want of elements or for what is wrong with their operands only.

## Results

* `Operation.run_guarded`, `step_guarded` — operations and items are guarded.
* `step_causes`                           — why an item can fail.
* `failure_keeps_stack`                   — what the failure of a run leaves.
-/

namespace LegacyScript

open MachineM StackM
open ScriptError (early)

-- ---------------------------------------------------------------------------
-- Actions of the machine
-- ---------------------------------------------------------------------------

section Actions

variable {α : Type} {op : StackM α} {k n : Nat}

theorem onStack_enough (h : Enough id n k op) : Enough Machine.stack n k (onStack op) := by
  intro m hHeight
  have hEnd := h m.stack hHeight
  cases hOp : op m.stack with
  | ok a stack =>
    rw [hOp] at hEnd
    rw [onStack_of_ok hOp]
    exact hEnd
  | error cause stack =>
    rw [hOp] at hEnd
    rw [onStack_of_error hOp]
    exact hEnd

theorem onStack_guarded (h : Guarded id k op) : Guarded Machine.stack k (onStack op) := by
  intro m
  have hEnd := h m.stack
  cases hOp : op m.stack with
  | ok a stack =>
    rw [hOp] at hEnd
    rw [onStack_of_ok hOp]
    exact hEnd
  | error cause stack =>
    rw [hOp] at hEnd
    rw [onStack_of_error hOp]
    exact hEnd

theorem record_enough (consultation : Consultation) :
    Enough Machine.stack n n (record consultation) :=
  fun _ hHeight => hHeight

theorem pushAlt_enough (value : Bytes) : Enough Machine.stack n n (pushAlt value) :=
  fun _ hHeight => hHeight

theorem popAlt_guarded : Guarded Machine.stack 0 popAlt := by
  intro m
  cases hAlt : m.alt with
  | nil =>
    rw [popAlt_of_nil hAlt]
    exact fun _ => rfl
  | cons value alt =>
    rw [popAlt_of_cons hAlt]
    exact Nat.zero_le _

theorem openBranch_guarded (expected : Bool) : Guarded Machine.stack 0 (openBranch expected) := by
  intro m
  cases hExecuting : m.executing with
  | false =>
    rw [openBranch_of_not_executing hExecuting]
    exact Nat.zero_le _
  | true =>
    cases hStack : m.stack with
    | nil =>
      rw [openBranch_of_nil hExecuting hStack]
      exact fun _ => hStack
    | cons value stack =>
      rw [openBranch_of_cons hExecuting hStack]
      exact Nat.zero_le _

theorem flipBranch_guarded : Guarded Machine.stack 0 flipBranch := by
  intro m
  cases hBranches : m.branches with
  | nil =>
    rw [flipBranch_of_nil hBranches]
    exact fun _ => rfl
  | cons runs outer =>
    rw [flipBranch_of_cons hBranches]
    exact Nat.zero_le _

theorem closeBranch_guarded : Guarded Machine.stack 0 closeBranch := by
  intro m
  cases hBranches : m.branches with
  | nil =>
    rw [closeBranch_of_nil hBranches]
    exact fun _ => rfl
  | cons runs outer =>
    rw [closeBranch_of_cons hBranches]
    exact Nat.zero_le _

theorem whenExecuting_guarded {action : MachineM Unit} (h : Guarded Machine.stack 0 action) :
    Guarded Machine.stack 0 (whenExecuting action) := by
  intro m
  cases hExecuting : m.executing with
  | false =>
    rw [whenExecuting_of_not_executing hExecuting]
    exact Nat.zero_le _
  | true =>
    rw [whenExecuting_of_executing hExecuting]
    exact h m

theorem checkDepth_enough : Enough Machine.stack n n checkDepth := by
  intro m hHeight
  rcases Nat.lt_or_ge Machine.maxDepth m.depth with hLt | hLe
  · have hLate : ScriptError.stackSize ∉ early := by decide
    rw [checkDepth_of_lt hLt]
    exact hLate
  · rw [checkDepth_of_le hLe]
    exact hHeight

end Actions

-- ---------------------------------------------------------------------------
-- Operations
-- ---------------------------------------------------------------------------

variable {rules : Rules} {script : Script}

theorem testSignature_guarded : Guarded Machine.stack 1 (testSignature rules script) :=
  (onStack_guarded (require_guarded 2)).bind fun _ => (onStack_enough pop_enough).bind fun _ =>
    (onStack_enough pop_enough).bind fun _ => get_enough.bind fun _ =>
    (record_enough _).bind fun _ => onStack_enough (pushBool_enough _)

theorem Test.run_guarded (t : Test) (hOne : t ≠ .checkMultiSig) :
    Guarded Machine.stack 1 (t.run rules script) := by
  cases t with
  | equal => exact onStack_guarded testEqual_guarded
  | numEqual => exact onStack_guarded (BinaryOp.run_guarded .numEqual)
  | checkSig => exact testSignature_guarded
  | checkMultiSig => exact absurd rfl hOne

theorem Test.cause_late (t : Test) : t.cause ∉ early := by
  cases t <;> decide

namespace Operation

/-- Whether an operation takes from the stack how far it reaches into it. -/
def reaches : Operation → Bool
  | .stack op => op.reaches
  | .test .checkMultiSig | .testVerify .checkMultiSig => true
  | _ => false

variable {operation : Operation}

theorem execute_guarded (hReach : operation.reaches = false) :
    Guarded Machine.stack 0 (operation.execute rules script) := by
  cases operation with
  | constant n => exact onStack_guarded (push_guarded (Number.encode n))
  | nop => exact fun _ => Nat.zero_le _
  | verify => exact onStack_guarded (verify_guarded (by decide))
  | opReturn => exact throw_guarded _
  | toAltStack => exact (onStack_guarded pop_guarded).bind fun value => pushAlt_enough value
  | fromAltStack =>
    exact Guarded.zero (popAlt_guarded.bind fun value => onStack_enough (push_enough value))
  | stack op => exact onStack_guarded (op.run_guarded hReach)
  | unary op => exact Guarded.zero (onStack_guarded op.run_guarded)
  | binary op => exact Guarded.zero (onStack_guarded op.run_guarded)
  | within => exact Guarded.zero (onStack_guarded within_guarded)
  | digest d => exact Guarded.zero (onStack_guarded d.run_guarded)
  | test t =>
    have hOne : t ≠ .checkMultiSig := by
      rintro rfl
      cases hReach
    exact Guarded.zero (t.run_guarded hOne)
  | testVerify t =>
    have hOne : t ≠ .checkMultiSig := by
      rintro rfl
      cases hReach
    -- the outcome of the test is there for the demand
    exact (t.run_guarded hOne).bind fun _ => onStack_enough (verify_enough t.cause_late)
  | pushBytes => exact throw_guarded _
  | conditional c => exact throw_guarded _
  | codeSeparator => exact throw_guarded _
  | disabled => exact throw_guarded _
  | reserved => exact throw_guarded _

/-- **Operations demand first what they take**, where that is known beforehand. -/
theorem run_guarded (hReach : operation.reaches = false) (stop : Nat) :
    Guarded Machine.stack 0 (operation.run rules script stop) := by
  cases operation with
  | conditional c =>
    cases c with
    | opIf => exact openBranch_guarded true
    | opNotIf => exact openBranch_guarded false
    | opElse => exact flipBranch_guarded
    | opEndIf => exact closeBranch_guarded
    | opVerIf => exact throw_guarded _
    | opVerNotIf => exact throw_guarded _
  | disabled => exact throw_guarded _
  | codeSeparator => exact whenExecuting_guarded fun _ => Nat.zero_le _
  | _ => exact whenExecuting_guarded (execute_guarded hReach)

end Operation

-- ---------------------------------------------------------------------------
-- Items
-- ---------------------------------------------------------------------------

section Items

variable {item : Item} {m after : Machine} {cause : ScriptError}

theorem runItem_guarded (hReach : ∀ operation, item.operation? = some operation →
    operation.reaches = false) : Guarded Machine.stack 0 (runItem rules script item) := by
  cases hContent : item.content with
  | error e =>
    rw [runItem_of_error hContent]
    exact throw_guarded _
  | ok instruction =>
    cases instruction with
    | push data =>
      rw [runItem_of_push hContent]
      split
      · exact throw_guarded _
      · exact whenExecuting_guarded (onStack_guarded (push_guarded data))
    | op code =>
      cases hOperation : code.operation? with
      | none =>
        rw [runItem_of_unknown hContent hOperation]
        exact throw_guarded _
      | some operation =>
        rw [runItem_of_operation hContent hOperation]
        have hItem : item.operation? = some operation := by
          rw [Item.operation?_of_op hContent, hOperation]
        refine Guarded.after (fun m => ?_) fun _ =>
          operation.run_guarded (hReach operation hItem) item.stop
        obtain ⟨opCount, hLeaves⟩ := leaves_countOpcode code m
        rw [hLeaves]

/-- **Items are guarded**, but for those that reach as far as the stack tells them. -/
theorem step_guarded (hReach : ∀ operation, item.operation? = some operation →
    operation.reaches = false) : Guarded Machine.stack 0 (step rules script item) :=
  (runItem_guarded hReach).bind fun _ => checkDepth_enough

/-- Why an item can fail. -/
theorem runItem_ends (rules : Rules) (script : Script) (item : Item) (m : Machine) :
    Ends ⟨fun _ => True, item.causes, True⟩ (fun _ => True) (Machine.Elements fun _ => True)
      (runItem rules script item m) := by
  have hGood : m.Elements fun _ => True := Machine.elements_of_forall (fun _ => trivial) m
  by_cases hDepth : item.operation? = some (.stack .depth)
  · obtain ⟨code, hContent, hOperation⟩ := Item.exists_code_of_operation? hDepth
    have hCauses : item.causes = [.opCount] := by
      simp only [Item.causes, hContent, hOperation, Operation.causes, StackOp.causes]
    have hCount : MachineM.Tame script ⟨fun _ => True, item.causes, True⟩ (fun _ => True)
        (countOpcode code) := countOpcode_tame code trivial (by rw [hCauses]; decide)
    rw [runItem_of_operation hContent hOperation]
    refine (hCount.ends hGood).bind fun _ counted _ _ => ?_
    rw [Operation.run_depth]
    exact ⟨trivial, Machine.elements_of_forall (fun _ => trivial) _⟩
  · have hTame : MachineM.Tame script ⟨fun _ => True, item.causes, True⟩ (fun _ => True)
        (runItem rules script item) :=
      runItem_tame closed_true (fun _ _ => trivial) trivial (List.Subset.refl _) hDepth
    exact hTame.ends hGood

/-- **Why an item can stop a run.** -/
theorem step_causes (h : step rules script item m = .error cause after) :
    cause = .stackSize ∨ cause = .invalidStackOperation ∨ cause ∈ item.causes := by
  rcases step_eq_error_iff.1 h with hFails | ⟨-, -, rfl⟩
  · have hEnds := runItem_ends rules script item m
    rw [hFails] at hEnds
    exact .inr hEnds.1
  · exact .inl rfl

end Items

theorem Operation.scriptSize_not_mem_causes (operation : Operation) :
    .scriptSize ∉ operation.causes := by
  cases operation with
  | stack op => cases op <;> decide
  | test t => cases t <;> decide
  | testVerify t => cases t <;> decide
  | conditional c => cases c <;> decide
  | _ => simp [causes]

theorem Item.scriptSize_not_mem_causes (item : Item) : .scriptSize ∉ item.causes := by
  unfold causes
  split
  · decide
  · decide
  · split
    · decide
    · next operation _ =>
      rw [List.mem_cons, not_or]
      exact ⟨nofun, operation.scriptSize_not_mem_causes⟩

/-- Operations that reach as far as the stack tells them have no early cause of failure but
the want of elements. -/
theorem Operation.late_of_reaches {operation : Operation} (hReach : operation.reaches = true) :
    ∀ cause ∈ operation.causes, cause ∉ early := by
  cases operation with
  | stack op =>
    cases op with
    | pick | roll => decide
    | _ => cases hReach
  | test t =>
    cases t with
    | checkMultiSig => decide
    | _ => cases hReach
  | testVerify t =>
    cases t with
    | checkMultiSig => decide
    | _ => cases hReach
  | _ => cases hReach

/-- The opcodes that reach as far as the stack tells them. -/
theorem Opcode.name?_of_reaches {code : Opcode} {operation : Operation}
    (h : code.operation? = some operation) (hReach : operation.reaches = true) :
    code.name? ∈ [some "OP_PICK", some "OP_ROLL", some "OP_CHECKMULTISIG",
      some "OP_CHECKMULTISIGVERIFY"] := by
  have hPush : operation ≠ .pushBytes := by
    rintro rfl
    cases hReach
  obtain ⟨row, hRow, rfl, rfl⟩ := exists_row h hPush
  have hTable : ∀ row ∈ rows, row.operation.reaches = true →
      row.opcode.name? ∈ [some "OP_PICK", some "OP_ROLL", some "OP_CHECKMULTISIG",
        some "OP_CHECKMULTISIGVERIFY"] := by
    decide +kernel
  exact hTable row hRow hReach

-- ---------------------------------------------------------------------------
-- Runs
-- ---------------------------------------------------------------------------

variable {item : Item} {m after : Machine} {cause : ScriptError}

/-- **An item that fails for an early cause leaves the main stack as it was**, if its opcode
does not take from the stack how far it reaches or the cause is not a want of elements. -/
theorem step_keeps_stack (hMem : item ∈ script.items)
    (h : step rules script item m = .error cause after) (hEarly : cause ∈ early)
    (hReach : cause = .invalidStackOperation → item.opcode.name? ∉
      [some "OP_PICK", some "OP_ROLL", some "OP_CHECKMULTISIG", some "OP_CHECKMULTISIGVERIFY"]) :
    after.stack = m.stack := by
  by_cases hPlain : ∀ operation, item.operation? = some operation → operation.reaches = false
  · exact (step_guarded hPlain).view_eq h hEarly
  · push Not at hPlain
    obtain ⟨operation, hItem, hFar⟩ := hPlain
    have hReaches : operation.reaches = true := eq_true_of_ne_false hFar
    obtain ⟨code, hContent, hOperation⟩ := Item.exists_code_of_operation? hItem
    have hCauses : item.causes = .opCount :: operation.causes := by
      simp only [Item.causes, hContent, hOperation]
    exfalso
    rcases step_causes h with rfl | rfl | hCause
    · exact absurd hEarly (by decide)
    · refine hReach rfl ?_
      rw [Script.opcode_eq_of_op hMem hContent]
      exact Opcode.name?_of_reaches hOperation hReaches
    · rw [hCauses] at hCause
      rcases List.mem_cons.1 hCause with rfl | hCause
      · exact absurd hEarly (by decide)
      · exact Operation.late_of_reaches hReaches cause hCause hEarly

/-- **What the failure of a run leaves of the main stack.** A script that is too large leaves
the stack that it was given, and one with open conditionals the stack behind its last item.
Otherwise an item failed, and the main stack is the one from before this item if the cause is
one of those that are found before anything is taken; a want of elements is one of them but
for four opcodes. -/
theorem failure_keeps_stack (rules : Rules) (m : Machine) (script : Script)
    (h : (script.run rules m).result = .error cause) :
    let report := script.run rules m
    (cause = .scriptSize ∧ report.machine.stack = m.stack) ∨
    (cause = .unbalancedConditional ∧ ∃ after,
      Completed rules script m.load script.items after report ∧
        report.machine.stack = after.stack) ∨
    ∃ front item rest before,
      Stopped rules script m.load script.items front item rest before report.machine cause
        report ∧ cause ≠ .scriptSize ∧
      (cause ∈ [.pushSize, .malformedPush, .unknownOpcode, .disabledOpcode, .badOpcode, .opReturn,
          .unbalancedConditional, .invalidAltStackOperation] →
        report.machine.stack = before.stack) ∧
      (cause = .invalidStackOperation →
        item.opcode.name? ∉ [some "OP_PICK", some "OP_ROLL", some "OP_CHECKMULTISIG",
          some "OP_CHECKMULTISIGVERIFY"] →
        report.machine.stack = before.stack) := by
  intro report
  rcases run_failure h with
    ⟨hCause, -, hMachine⟩ | ⟨hCause, after, hCompleted, -⟩ | ⟨front, item, rest, before, hStopped⟩
  · have hStack : report.machine.stack = m.load.stack := congrArg Machine.stack hMachine
    exact .inl ⟨hCause, hStack⟩
  · have hStack : report.machine.stack = after.stack := congrArg Machine.stack hCompleted.machine_eq
    exact .inr (.inl ⟨hCause, after, hCompleted, hStack⟩)
  · have hMem : item ∈ script.items := hStopped.mem_items
    refine .inr (.inr ⟨front, item, rest, before, hStopped, ?_, ?_, ?_⟩)
    · rintro rfl
      rcases step_causes hStopped.fails with hCause | hCause | hCause
      · cases hCause
      · cases hCause
      · exact item.scriptSize_not_mem_causes hCause
    · intro hQuiet
      have hEarly : cause ∈ early :=
        List.mem_append_left [ScriptError.invalidStackOperation] hQuiet
      refine step_keeps_stack hMem hStopped.fails hEarly ?_
      rintro rfl
      exact absurd hQuiet (by decide)
    · rintro rfl hName
      exact step_keeps_stack hMem hStopped.fails (by decide) fun _ => hName

/-- Three elements are to be copied where there are two: the two are still there. -/
theorem failure_keeps_stack_dup3 :
    let rules : Rules := ⟨{ checkSig := fun _ _ _ => true }, Flags.none⟩
    let script : Script := [0x51, 0x52, 0x6f]
    let start : Machine := Machine.ofStack []
    let report := script.run rules start
    report.result = .error .invalidStackOperation ∧ ∃ front item rest before,
      Stopped rules script start script.items front item rest before report.machine
        .invalidStackOperation report ∧
      report.machine.stack = before.stack ∧ before.stack = [[2], [1]] := by
  intro rules script start report
  have hResult : report.result = .error .invalidStackOperation := by decide +kernel
  have hLeft : report.machine.stack = [[2], [1]] := by decide +kernel
  have hNames : ∀ item ∈ script.items, item.opcode.name? ∉ [some "OP_PICK", some "OP_ROLL",
      some "OP_CHECKMULTISIG", some "OP_CHECKMULTISIGVERIFY"] := by
    decide +kernel
  refine ⟨hResult, ?_⟩
  rcases failure_keeps_stack rules start script hResult with
    ⟨hCause, -⟩ | ⟨hCause, -⟩ | ⟨front, item, rest, before, hStopped, -, -, hKept⟩
  · cases hCause
  · cases hCause
  · have hStack := hKept rfl (hNames item hStopped.mem_items)
    exact ⟨front, item, rest, before, hStopped, hStack, hStack.symm.trans hLeft⟩

end LegacyScript
