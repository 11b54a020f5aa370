import LegacyScript.Proofs.Machine.Books
import LegacyScript.Proofs.Machine.Failures
import LegacyScript.Proofs.Machine.Isolation
import LegacyScript.Proofs.Opcode.Names

/-!
# What a cause tells of the item that failed

A report gives one cause. Most causes are tied to a few opcodes, by the table: `mnemonics` are
those at which a cause is found. An opcode without a role in steering fails only where it is
executed, so that most causes tell that, too. `Explains` says for every cause what is known of
the item that failed with it, and of the machine that it found.

The cause of a want of truth at the end, `evalFalse`, is no cause of an item, and no script
fails with it. So a verification that fails with it has run both scripts to their ends.

## Results

* `Item.named_of_causes`        — the opcodes of a cause.
* `Operation.run_cases`         — the ways in which an operation can fail.
* `step_explains`               — what the cause tells of an item that fails.
* `verifyScripts_evalFalse_iff` — when a verification ends without truth.
* `causes_identify`             — all of this together.
-/

namespace LegacyScript

open MachineM

-- ---------------------------------------------------------------------------
-- Mnemonics
-- ---------------------------------------------------------------------------

/-- The mnemonics of the opcodes of arithmetic. -/
def Opcode.numeric : List String :=
  ["OP_1ADD", "OP_1SUB", "OP_NEGATE", "OP_ABS", "OP_NOT", "OP_0NOTEQUAL", "OP_ADD", "OP_SUB",
    "OP_BOOLAND", "OP_BOOLOR", "OP_NUMEQUAL", "OP_NUMEQUALVERIFY", "OP_NUMNOTEQUAL",
    "OP_LESSTHAN", "OP_GREATERTHAN", "OP_LESSTHANOREQUAL", "OP_GREATERTHANOREQUAL", "OP_MIN",
    "OP_MAX", "OP_WITHIN"]

/-- The mnemonics of the opcodes at which a cause is found. There are none for the causes that
any opcode can have, and for those that are not found at an opcode. -/
def ScriptError.mnemonics : ScriptError → List String
  | .numOverflow =>
    Opcode.numeric ++ ["OP_PICK", "OP_ROLL", "OP_CHECKMULTISIG", "OP_CHECKMULTISIGVERIFY"]
  | .pubkeyCount | .sigCount => ["OP_CHECKMULTISIG", "OP_CHECKMULTISIGVERIFY"]
  | .opReturn => ["OP_RETURN"]
  | .invalidAltStackOperation => ["OP_FROMALTSTACK"]
  | .verify => ["OP_VERIFY"]
  | .equalVerify => ["OP_EQUALVERIFY"]
  | .numEqualVerify => ["OP_NUMEQUALVERIFY"]
  | .checkSigVerify => ["OP_CHECKSIGVERIFY"]
  | .checkMultiSigVerify => ["OP_CHECKMULTISIGVERIFY"]
  | .unbalancedConditional => ["OP_IF", "OP_NOTIF", "OP_ELSE", "OP_ENDIF"]
  | .badOpcode =>
    ["OP_VERIF", "OP_VERNOTIF", "OP_RESERVED", "OP_VER", "OP_RESERVED1", "OP_RESERVED2",
      "OP_SMALLDATA", "OP_PUBKEYHASH", "OP_PUBKEY", "OP_INVALIDOPCODE"]
  | .disabledOpcode =>
    ["OP_CAT", "OP_SUBSTR", "OP_LEFT", "OP_RIGHT", "OP_INVERT", "OP_AND", "OP_OR", "OP_XOR",
      "OP_2MUL", "OP_2DIV", "OP_MUL", "OP_DIV", "OP_MOD", "OP_LSHIFT", "OP_RSHIFT"]
  | _ => []

namespace Item

/-- An item is an opcode with one of some mnemonics. -/
def Named (item : Item) (names : List String) : Prop :=
  ∃ code, item.content = .ok (.op code) ∧ ∃ name ∈ names, code.name? = some name

/-- An item is such an opcode, and is executed: all branches around it run. -/
def Executed (item : Item) (m : Machine) (names : List String) : Prop :=
  m.executing = true ∧ item.Named names

end Item

/-- What a cause tells of the item that failed with it, and of the machine that the item
found. The machine that it left matters for the depth of the stacks alone. -/
def ScriptError.Explains (item : Item) (before after : Machine) (cause : ScriptError) : Prop :=
  match cause with
  | .numOverflow | .pubkeyCount | .sigCount | .opReturn | .verify | .equalVerify
  | .numEqualVerify | .checkSigVerify | .checkMultiSigVerify =>
    item.Executed before cause.mnemonics
  | .invalidAltStackOperation => item.Executed before cause.mnemonics ∧ before.alt = []
  | .unbalancedConditional =>
    item.Executed before ["OP_IF", "OP_NOTIF"] ∧ before.stack = [] ∨
      item.Named ["OP_ELSE", "OP_ENDIF"] ∧ before.branches = []
  | .badOpcode =>
    item.Executed before cause.mnemonics ∨ item.Named ["OP_VERIF", "OP_VERNOTIF"]
  | .disabledOpcode => item.Named cause.mnemonics
  | .unknownOpcode => ∃ code, item.content = .ok (.op code) ∧ code.isKnown = false
  | .malformedPush => ∃ e, item.content = .error e
  | .pushSize => ∃ data, item.content = .ok (.push data) ∧ Script.maxElementSize < data.length
  | .opCount => item.isCounted = true
  | .stackSize => Machine.maxDepth < after.depth
  | .invalidStackOperation =>
    before.executing = true ∧ ∃ code, item.content = .ok (.op code)
  | .evalFalse | .scriptSize => False

-- ---------------------------------------------------------------------------
-- The table
-- ---------------------------------------------------------------------------

/-- **The table ties causes to opcodes.** -/
theorem Opcode.name_mem_mnemonics : ∀ row ∈ rows, row.operation ≠ .pushBytes →
    ∀ cause ∈ row.operation.causes, cause = .opCount ∨ row.name ∈ cause.mnemonics := by
  decide +kernel

/-- The opcodes that push bytes of the script are the first ones. -/
theorem Opcode.operation?_ne_pushBytes {code : Opcode} (h : 0x4e < code) :
    code.operation? ≠ some .pushBytes := by
  have hTable : ∀ row ∈ rows, row.operation = .pushBytes → row.opcode ≤ 0x4e := by
    decide +kernel
  intro hPush
  unfold operation? at hPush
  split at hPush
  · next hDirect =>
    have hLe : code ≤ 0x4b := of_decide_eq_true hDirect
    have hLt : (0x4b : Opcode) < 0x4e := by decide
    exact absurd (UInt8.lt_of_le_of_lt hLe hLt) (UInt8.lt_asymm h)
  · obtain ⟨row, hRow, hOperation⟩ := Option.map_eq_some_iff.1 hPush
    unfold row? at hRow
    have hFound := List.find?_some hRow
    have hCode : row.opcode = code := eq_of_beq hFound
    have hLe := hTable row (List.mem_of_find?_eq_some hRow) hOperation
    rw [hCode] at hLe
    exact absurd hLe (UInt8.not_le.2 h)

variable {rules : Rules} {script : Script} {item : Item} {m before after : Machine}
  {cause : ScriptError} {code : Opcode} {operation : Operation} {stop : Nat}

/-- What an operation is called is read off the table. -/
theorem Item.named_of_operation {names : List String} (hContent : item.content = .ok (.op code))
    (hOperation : code.operation? = some operation) (hPush : operation ≠ .pushBytes)
    (hTable : ∀ row ∈ Opcode.rows, row.operation = operation → row.name ∈ names) :
    item.Named names := by
  obtain ⟨row, hRow, rfl, rfl⟩ := Opcode.exists_row hOperation hPush
  exact ⟨row.opcode, hContent, row.name, hTable row hRow rfl, Opcode.name?_of_mem hRow⟩

/-- **The opcodes of a cause.** -/
theorem Item.named_of_causes (hContent : item.content = .ok (.op code))
    (hOperation : code.operation? = some operation) (hPush : operation ≠ .pushBytes)
    (hCause : cause ∈ operation.causes) (hBudget : cause ≠ .opCount) :
    item.Named cause.mnemonics := by
  refine named_of_operation hContent hOperation hPush ?_
  rintro row hRow rfl
  exact (Opcode.name_mem_mnemonics row hRow hPush cause hCause).resolve_left hBudget

-- ---------------------------------------------------------------------------
-- Operations
-- ---------------------------------------------------------------------------

/-- Only a condition that is executed can be missing. -/
theorem openBranch_eq_error {expected : Bool} (h : openBranch expected m = .error cause after) :
    cause = .unbalancedConditional ∧ m.executing = true ∧ m.stack = [] := by
  cases hExecuting : m.executing with
  | false =>
    rw [openBranch_of_not_executing hExecuting] at h
    cases h
  | true =>
    cases hStack : m.stack with
    | nil =>
      rw [openBranch_of_nil hExecuting hStack] at h
      cases h
      exact ⟨rfl, rfl, rfl⟩
    | cons value stack =>
      rw [openBranch_of_cons hExecuting hStack] at h
      cases h

theorem flipBranch_eq_error (h : flipBranch m = .error cause after) :
    cause = .unbalancedConditional ∧ m.branches = [] := by
  cases hBranches : m.branches with
  | nil =>
    rw [flipBranch_of_nil hBranches] at h
    cases h
    exact ⟨rfl, rfl⟩
  | cons runs outer =>
    rw [flipBranch_of_cons hBranches] at h
    cases h

theorem closeBranch_eq_error (h : closeBranch m = .error cause after) :
    cause = .unbalancedConditional ∧ m.branches = [] := by
  cases hBranches : m.branches with
  | nil =>
    rw [closeBranch_of_nil hBranches] at h
    cases h
    exact ⟨rfl, rfl⟩
  | cons runs outer =>
    rw [closeBranch_of_cons hBranches] at h
    cases h

/-- What is missing from the alt stack is missing from the beginning. -/
theorem fromAltStack_eq_error
    (h : Operation.execute rules script .fromAltStack m = .error cause after) : m.alt = [] := by
  cases hAlt : m.alt with
  | nil => rfl
  | cons value alt =>
    have hPop := popAlt_of_cons hAlt
    have hPush : Operation.execute rules script .fromAltStack m =
        onStack (StackM.push value) { m with alt } := bind_of_ok hPop
    rw [hPush] at h
    cases h

namespace Operation

/-- Why an operation can fail. -/
theorem run_causes (hOperation : code.operation? = some operation)
    (h : operation.run rules script stop m = .error cause after) :
    cause = .invalidStackOperation ∨ cause ∈ operation.causes := by
  by_cases hDepth : operation = .stack .depth
  · rw [hDepth, run_depth] at h
    cases h
  · have hTame : MachineM.Tame script ⟨fun _ => True, operation.causes, True⟩ (fun _ => True)
        (operation.run rules script stop) := by
      refine operation.run_tame stop closed_true (fun _ => trivial) (List.Subset.refl _) ?_ hDepth
      rintro n rfl
      exact Opcode.natAbs_lt_of_constant hOperation
    have hEnds := hTame.ends (Machine.elements_of_forall (fun _ => trivial) m)
    rw [h] at hEnds
    exact hEnds.1

/-- **The ways in which an operation can fail**: it steers, it is disabled, or it is
executed. -/
theorem run_cases (h : operation.run rules script stop m = .error cause after) :
    (∃ c : Conditional, operation = .conditional c ∧ c.run m = .error cause after) ∨
      (operation = .disabled ∧ cause = .disabledOpcode) ∨
      (∀ c, operation ≠ .conditional c) ∧ m.executing = true ∧
        operation.execute rules script m = .error cause after := by
  cases hExecuting : m.executing with
  | true =>
    cases operation with
    | conditional c => exact .inl ⟨c, rfl, h⟩
    | disabled =>
      cases h
      exact .inr (.inl ⟨rfl, rfl⟩)
    | codeSeparator =>
      rw [run, whenExecuting_of_executing hExecuting] at h
      cases h
    | _ =>
      refine .inr (.inr ⟨nofun, rfl, ?_⟩)
      rw [← h]
      exact (whenExecuting_of_executing hExecuting).symm
  | false =>
    cases operation with
    | conditional c => exact .inl ⟨c, rfl, h⟩
    | disabled =>
      cases h
      exact .inr (.inl ⟨rfl, rfl⟩)
    | _ =>
      rw [run, whenExecuting_of_not_executing hExecuting] at h
      · cases h
      all_goals exact nofun

/-- The alt stack is a cause of one operation alone. -/
theorem eq_fromAltStack (h : .invalidAltStackOperation ∈ operation.causes) :
    operation = .fromAltStack := by
  cases operation with
  | fromAltStack => rfl
  | stack op => cases op <;> simp [causes, StackOp.causes] at h
  | test t => cases t <;> simp [causes, Test.causes] at h
  | testVerify t => cases t <;> simp [causes, Test.causes, Test.cause] at h
  | conditional c => cases c <;> simp [causes] at h
  | _ => simp [causes] at h

/-- A missing condition is a cause of what steers alone. -/
theorem unbalanced_not_mem_causes (hPlain : ∀ c, operation ≠ .conditional c) :
    .unbalancedConditional ∉ operation.causes := by
  cases operation with
  | conditional c => exact absurd rfl (hPlain c)
  | stack op => cases op <;> decide
  | test t => cases t <;> decide
  | testVerify t => cases t <;> decide
  | _ => simp [causes]

end Operation

/-- What the cause tells where a conditional fails. -/
theorem Conditional.run_explains {c : Conditional} (hContent : item.content = .ok (.op code))
    (hOperation : code.operation? = some (.conditional c)) (h : c.run m = .error cause after) :
    cause.Explains item m after := by
  have hNamed {names : List String}
      (hTable : ∀ row ∈ Opcode.rows, row.operation = .conditional c → row.name ∈ names) :
      item.Named names :=
    Item.named_of_operation hContent hOperation nofun hTable
  cases c with
  | opIf | opNotIf =>
    obtain ⟨rfl, hExecuting, hStack⟩ := openBranch_eq_error h
    exact .inl ⟨⟨hExecuting, hNamed (by decide +kernel)⟩, hStack⟩
  | opElse =>
    obtain ⟨rfl, hBranches⟩ := flipBranch_eq_error h
    exact .inr ⟨hNamed (by decide +kernel), hBranches⟩
  | opEndIf =>
    obtain ⟨rfl, hBranches⟩ := closeBranch_eq_error h
    exact .inr ⟨hNamed (by decide +kernel), hBranches⟩
  | opVerIf | opVerNotIf =>
    cases h
    exact .inr (hNamed (by decide +kernel))

/-- **What the cause tells where an operation fails.** -/
theorem Operation.run_explains (hContent : item.content = .ok (.op code))
    (hOperation : code.operation? = some operation) (hPush : operation ≠ .pushBytes)
    (h : operation.run rules script stop m = .error cause after) :
    cause.Explains item m after := by
  rcases run_cases h with ⟨c, rfl, hFails⟩ | ⟨rfl, rfl⟩ | ⟨hPlain, hExecuting, hFails⟩
  · exact Conditional.run_explains hContent hOperation hFails
  · exact Item.named_of_causes hContent hOperation hPush (.head _) nofun
  · rcases run_causes hOperation h with rfl | hCause
    · exact ⟨hExecuting, code, hContent⟩
    by_cases hBudget : cause = .opCount
    · rw [hBudget] at hCause ⊢
      have hBooks : operation.writesBooks = true := by
        by_contra hQuiet
        exact opCount_not_mem_causes (eq_false_of_ne_true hQuiet) hCause
      have hCounted := Opcode.isCounted_of_writesBooks hOperation hBooks
      simp only [ScriptError.Explains, Item.isCounted, hContent, hCounted]
    · have hNamed := Item.named_of_causes hContent hOperation hPush hCause hBudget
      have hExecuted : item.Executed m cause.mnemonics := ⟨hExecuting, hNamed⟩
      cases cause with
      | numOverflow | pubkeyCount | sigCount | opReturn | verify | equalVerify | numEqualVerify
      | checkSigVerify | checkMultiSigVerify => exact hExecuted
      | invalidAltStackOperation =>
        obtain rfl := eq_fromAltStack hCause
        exact ⟨hExecuted, fromAltStack_eq_error hFails⟩
      | unbalancedConditional => exact absurd hCause (unbalanced_not_mem_causes hPlain)
      | badOpcode => exact .inl hExecuted
      | disabledOpcode => exact hNamed
      -- the table ties no opcode to the others
      | _ =>
        obtain ⟨-, -, name, hName, -⟩ := hNamed
        cases hName

-- ---------------------------------------------------------------------------
-- Items
-- ---------------------------------------------------------------------------

/-- **What the cause tells where an item fails**, the check of the depth aside. -/
theorem runItem_explains (hMem : item ∈ script.items)
    (h : runItem rules script item before = .error cause after) :
    cause.Explains item before after := by
  cases hContent : item.content with
  | error e =>
    rw [runItem_of_error hContent] at h
    cases h
    exact ⟨e, hContent⟩
  | ok instruction =>
    cases instruction with
    | push data =>
      rw [runItem_of_push hContent] at h
      split at h
      · next hSize =>
        cases h
        exact ⟨data, hContent, hSize⟩
      · cases hExecuting : before.executing with
        | true =>
          rw [whenExecuting_of_executing hExecuting] at h
          cases h
        | false =>
          rw [whenExecuting_of_not_executing hExecuting] at h
          cases h
    | op code =>
      cases hOperation : code.operation? with
      | none =>
        rw [runItem_of_unknown hContent hOperation] at h
        cases h
        have hUnknown : code.isKnown = false := by
          rw [Opcode.isKnown, hOperation]
          rfl
        exact ⟨code, hContent, hUnknown⟩
      | some operation =>
        rw [runItem_of_operation hContent hOperation] at h
        have hPush : operation ≠ .pushBytes := by
          rintro rfl
          exact Opcode.operation?_ne_pushBytes (Script.lt_of_op hMem hContent) hOperation
        cases hCount : countOpcode code before with
        | error other left =>
          rw [bind_of_error hCount] at h
          cases h
          obtain ⟨rfl, hCounted⟩ := countOpcode_eq_error hCount
          simp only [ScriptError.Explains, Item.isCounted, hContent, hCounted]
        | ok u counted =>
          rw [bind_of_ok hCount] at h
          obtain ⟨rfl, -⟩ := countOpcode_eq_ok hCount
          -- the operation finds the machine with one more operation counted
          have hExplains := Operation.run_explains hContent hOperation hPush h
          cases cause <;> exact hExplains

/-- **What the cause tells where an item stops a run.** -/
theorem step_explains (hMem : item ∈ script.items)
    (h : step rules script item before = .error cause after) :
    cause.Explains item before after := by
  rcases step_eq_error_iff.1 h with hFails | ⟨-, hDepth, rfl⟩
  · exact runItem_explains hMem hFails
  · exact hDepth

-- ---------------------------------------------------------------------------
-- Runs
-- ---------------------------------------------------------------------------

/-- No script fails for want of truth at its end. -/
theorem run_ne_evalFalse : (script.run rules m).result ≠ .error .evalFalse := by
  intro h
  rcases run_failure h with ⟨hCause, -⟩ | ⟨hCause, -⟩ | ⟨front, item, rest, before, hStopped⟩
  · cases hCause
  · cases hCause
  · exact step_explains hStopped.mem_items hStopped.fails

-- ---------------------------------------------------------------------------
-- Verifications
-- ---------------------------------------------------------------------------

theorem Stack.isTrue_eq_false_iff {s : Stack} : s.isTrue = false ↔
    s = [] ∨ ∃ top below, s = top :: below ∧ Number.truthy top = false := by
  cases s with
  | nil => simp [isTrue]
  | cons top below => simp [isTrue]

theorem verdict_evalFalse_iff {report : Report} (hNever : report.result ≠ .error .evalFalse) :
    report.verdict = .error (.script .evalFalse) ↔
      report.result = .ok () ∧ report.machine.stack.isTrue = false := by
  unfold Report.verdict
  cases hResult : report.result with
  | error cause =>
    have hOther : cause ≠ .evalFalse := fun hCause => hNever (hCause ▸ hResult)
    simp [hOther]
  | ok u => simp

/-- **When a verification ends without truth.** -/
theorem verifyScripts_evalFalse_iff (rules : Rules) (unlocking locking : Script) :
    let first := unlocking.run rules (Machine.ofStack [])
    let second := locking.run rules first.machine
    (verifyScripts rules unlocking locking).result = .error (.script .evalFalse) ↔
      first.result = .ok () ∧ second.result = .ok () ∧
        (second.machine.stack = [] ∨
          ∃ top below, second.machine.stack = top :: below ∧ Number.truthy top = false) := by
  intro first second
  rw [← Stack.isTrue_eq_false_iff]
  cases hFirst : first.result with
  | error cause =>
    have hOther : cause ≠ .evalFalse := fun hCause => run_ne_evalFalse (hCause ▸ hFirst)
    rw [verifyScripts_of_error hFirst]
    simp [hOther]
  | ok u =>
    rw [verifyScripts_of_ok hFirst rfl, verdict_evalFalse_iff run_ne_evalFalse]
    exact ⟨fun h => ⟨rfl, h⟩, And.right⟩

-- ---------------------------------------------------------------------------
-- Identification
-- ---------------------------------------------------------------------------

/-- **Causes identify what failed.** A run fails because its script is too large, or because a
conditional is open behind the last item, or at an item; and then the cause tells which opcode
it is, whether it was executed, and what it found to be missing, as far as the cause is tied to
opcodes. No run fails for want of truth at its end, so that a verification does just when both
scripts ran to their ends and left no stack, or none with a true top. -/
theorem causes_identify (rules : Rules) :
    (∀ (m : Machine) (script : Script) (cause : ScriptError),
      let report := script.run rules m
      report.result = .error cause →
        (cause = .scriptSize ∧ Script.maxSize < script.length) ∨
        (cause = .unbalancedConditional ∧ ∃ after,
          Completed rules script m.load script.items after report ∧ after.branches ≠ []) ∨
        ∃ front item rest before,
          Stopped rules script m.load script.items front item rest before report.machine cause
            report ∧ cause.Explains item before report.machine) ∧
    (∀ (m : Machine) (script : Script), (script.run rules m).result ≠ .error .evalFalse) ∧
    ∀ unlocking locking : Script,
      let first := unlocking.run rules (Machine.ofStack [])
      let second := locking.run rules first.machine
      (verifyScripts rules unlocking locking).result = .error (.script .evalFalse) ↔
        first.result = .ok () ∧ second.result = .ok () ∧
          (second.machine.stack = [] ∨
            ∃ top below, second.machine.stack = top :: below ∧ Number.truthy top = false) := by
  refine ⟨?_, fun _ _ => run_ne_evalFalse, verifyScripts_evalFalse_iff rules⟩
  intro m script cause report h
  rcases run_failure h with
    ⟨hCause, hSize, -⟩ | hOpen | ⟨front, item, rest, before, hStopped⟩
  · exact .inl ⟨hCause, hSize⟩
  · exact .inr (.inl hOpen)
  · exact .inr (.inr ⟨front, item, rest, before, hStopped,
      step_explains hStopped.mem_items hStopped.fails⟩)

/-- One branch is passed over with what it would take from the alt stack, and the other takes it
and fails. -/
theorem causes_identify_fromAltStack :
    let rules : Rules := ⟨{ checkSig := fun _ _ _ => true }, Flags.none⟩
    let script : Script := [0x00, 0x63, 0x6c, 0x67, 0x6c, 0x68]
    let start : Machine := Machine.ofStack []
    let report := script.run rules start
    report.result = .error .invalidAltStackOperation ∧ ∃ front item rest before,
      Stopped rules script start script.items front item rest before report.machine
        .invalidAltStackOperation report ∧
      front.length = 4 ∧ item.Executed before ["OP_FROMALTSTACK"] ∧ before.alt = [] := by
  intro rules script start report
  have hResult : report.result = .error .invalidAltStackOperation := by decide +kernel
  have hSteps : report.steps = 5 := by decide +kernel
  refine ⟨hResult, ?_⟩
  rcases (causes_identify rules).1 start script _ hResult with
    ⟨hCause, -⟩ | ⟨hCause, -⟩ | ⟨front, item, rest, before, hStopped, hExecuted, hAlt⟩
  · cases hCause
  · cases hCause
  · have hCount : front.length + 1 = 5 := hStopped.steps_eq.symm.trans hSteps
    exact ⟨front, item, rest, before, hStopped, Nat.succ.inj hCount, hExecuted, hAlt⟩

end LegacyScript
