import LegacyScript.Proofs.Machine.Trace
import LegacyScript.Proofs.Script.Items

/-!
# Bounds on runs

A run does not read more items than its script has bytes, and the stacks do not
outgrow the limit by more than one item can put on them before it is noticed.

How much an item can put on the stacks is counted by a small calculus. `Grows`
says that an action adds no more than a number of elements, and that also when it
fails half way. It adds up over the lines of an operation, and the basic
operations on stacks add one element or none. The most that any operation adds
is three (`Operation.execute_grows`), and so it is for items (`step_grows`).

The invariant of runs is then the limit itself: it holds before the first item
by assumption, and behind each item because that has just been checked.

## Results

* `step_grows`         — an item adds at most three elements, also when it fails.
* `Reaches.depth_le`   — wherever a run comes to, the stacks are within the limit.
* `run_bounded`        — the bounds on whole runs.
-/

namespace LegacyScript

-- ---------------------------------------------------------------------------
-- Growth
-- ---------------------------------------------------------------------------

section Growth

variable {State α β : Type} {size : State → Nat} {j k : Nat} {x : EStateM ScriptError State α}

/-- The action adds at most `k` to the size of the state, whether it answers or fails. -/
def Grows (size : State → Nat) (k : Nat) (x : EStateM ScriptError State α) : Prop :=
  ∀ s, size (leaves x s) ≤ size s + k

theorem Grows.mono (h : Grows size j x) (hLe : j ≤ k) : Grows size k x :=
  fun s => Nat.le_trans (h s) (Nat.add_le_add_left hLe _)

theorem pure_grows (a : α) : Grows size k (pure a : EStateM ScriptError State α) :=
  fun _ => Nat.le_add_right _ _

theorem throw_grows (cause : ScriptError) :
    Grows size k (throw cause : EStateM ScriptError State α) :=
  fun _ => Nat.le_add_right _ _

theorem get_grows : Grows size 0 (get : EStateM ScriptError State State) :=
  fun _ => Nat.le_refl _

/-- Growth adds up over two lines. -/
theorem Grows.bind {f : α → EStateM ScriptError State β} (hx : Grows size j x)
    (hf : ∀ a, Grows size k (f a)) : Grows size (j + k) (x >>= f) := by
  intro s
  have hFirst := hx s
  rcases leaves_bind (x := x) (s := s) f with hLeft | ⟨a, hLeft⟩
  · rw [hLeft]
    omega
  · have hSecond := hf a (leaves x s)
    rw [hLeft]
    omega

/-- A line that adds nothing. -/
theorem Grows.after {f : α → EStateM ScriptError State β} (hx : Grows size 0 x)
    (hf : ∀ a, Grows size k (f a)) : Grows size k (x >>= f) := by
  have h := hx.bind hf
  rwa [Nat.zero_add] at h

theorem ite_grows {c : Prop} [Decidable c] {y : EStateM ScriptError State α}
    (hx : Grows size k x) (hy : Grows size k y) : Grows size k (if c then x else y) := by
  split
  · exact hx
  · exact hy

end Growth

-- ---------------------------------------------------------------------------
-- Operations on the main stack
-- ---------------------------------------------------------------------------

namespace StackM

variable {k : Nat}

theorem push_grows (value : Bytes) : Grows List.length 1 (push value) :=
  fun _ => Nat.le_refl _

theorem pushNumber_grows (value : Int) : Grows List.length 1 (pushNumber value) :=
  push_grows _

theorem pushBool_grows (value : Bool) : Grows List.length 1 (pushBool value) :=
  push_grows _

theorem pop_grows : Grows List.length 0 pop := by
  intro s
  cases s with
  | nil => exact Nat.le_refl 0
  | cons value s => exact Nat.le_succ s.length

theorem require_grows (depth : Nat) : Grows List.length 0 (require depth) := by
  intro s
  rcases Nat.lt_or_ge s.length depth with hLt | hLe
  · rw [leaves_of_error (require_of_lt hLt)]
    exact Nat.le_refl _
  · rw [leaves_of_ok (require_of_le hLe)]
    exact Nat.le_refl _

theorem peek_grows (depth : Nat) : Grows List.length 0 (peek depth) := by
  intro s
  rcases Nat.lt_or_ge depth s.length with hLt | hLe
  · rw [leaves_of_ok (peek_of_lt hLt)]
    exact Nat.le_refl _
  · rw [leaves_of_error (peek_of_le hLe)]
    exact Nat.le_refl _

theorem remove_grows (depth : Nat) : Grows List.length 0 (remove depth) := by
  intro s
  rcases Nat.lt_or_ge depth s.length with hLt | hLe
  · rw [leaves_of_ok (remove_of_lt hLt)]
    exact List.length_eraseIdx_le s depth
  · rw [leaves_of_error (remove_of_le hLe)]
    exact Nat.le_refl _

theorem insert_grows (depth : Nat) (value : Bytes) :
    Grows List.length 1 (insert depth value) := by
  intro s
  rcases Nat.lt_or_ge s.length depth with hLt | hLe
  · rw [leaves_of_error (insert_of_lt value hLt)]
    exact Nat.le_succ _
  · rw [leaves_of_ok (insert_of_le value hLe)]
    exact Nat.le_of_eq (List.length_insertIdx_of_le_length hLe value)

theorem exchange_grows (a b : Nat) : Grows List.length 0 (exchange a b) := by
  intro s
  unfold leaves exchange
  cases s[a]? with
  | none => exact Nat.le_refl _
  | some x =>
    cases s[b]? with
    | none => exact Nat.le_refl _
    | some y =>
      show ((s.set a y).set b x).length ≤ s.length
      exact Nat.le_of_eq (List.length_set.trans List.length_set)

theorem popNumber_grows : Grows List.length 0 popNumber := by
  refine pop_grows.after fun value => ?_
  split
  · exact pure_grows _
  · exact throw_grows _

theorem popCount_grows (limit : Nat) (cause : ScriptError) :
    Grows List.length 0 (popCount limit cause) :=
  popNumber_grows.after fun _ => ite_grows (pure_grows _) (throw_grows _)

theorem popDepth_grows : Grows List.length 0 popDepth :=
  popNumber_grows.after fun _ => get_grows.after fun _ =>
    ite_grows (pure_grows _) (throw_grows _)

theorem popMany_grows (n : Nat) : Grows List.length 0 (popMany n) := by
  induction n with
  | zero => exact pure_grows _
  | succ n ih => exact pop_grows.after fun _ => ih.after fun _ => pure_grows _

theorem verify_grows (cause : ScriptError) : Grows List.length 0 (verify cause) :=
  pop_grows.after fun _ => ite_grows (pure_grows _) (throw_grows _)

end StackM

open StackM MachineM

/-- To rearrange the stack adds three elements at most, which `OP_3DUP` does. -/
theorem StackOp.run_grows (op : StackOp) : Grows List.length 3 op.run := by
  cases op with
  | drop2 =>
    exact (require_grows 2).after fun _ => pop_grows.after fun _ => pop_grows.after fun _ =>
      pure_grows _
  | dup2 =>
    refine Grows.mono (j := 1 + 1) ?_ (by decide)
    exact (require_grows 2).after fun _ => (peek_grows 1).after fun _ =>
      (peek_grows 0).after fun _ => (push_grows _).bind fun _ => push_grows _
  | dup3 =>
    refine Grows.mono (j := 1 + (1 + 1)) ?_ (by decide)
    exact (require_grows 3).after fun _ => (peek_grows 2).after fun _ =>
      (peek_grows 1).after fun _ => (peek_grows 0).after fun _ =>
      (push_grows _).bind fun _ => (push_grows _).bind fun _ => push_grows _
  | over2 =>
    refine Grows.mono (j := 1 + 1) ?_ (by decide)
    exact (require_grows 4).after fun _ => (peek_grows 3).after fun _ =>
      (peek_grows 2).after fun _ => (push_grows _).bind fun _ => push_grows _
  | rot2 =>
    refine Grows.mono (j := 1 + 1) ?_ (by decide)
    exact (require_grows 6).after fun _ => (remove_grows 5).after fun _ =>
      (remove_grows 4).after fun _ => (push_grows _).bind fun _ => push_grows _
  | swap2 =>
    refine Grows.mono (j := 0) ?_ (by decide)
    exact (require_grows 4).after fun _ => (exchange_grows 3 1).after fun _ => exchange_grows 2 0
  | ifDup =>
    refine Grows.mono (j := 1) ?_ (by decide)
    exact (peek_grows 0).after fun _ => ite_grows (push_grows _) (pure_grows _)
  | depth =>
    refine Grows.mono (j := 1) ?_ (by decide)
    exact get_grows.after fun _ => pushNumber_grows _
  | drop => exact pop_grows.after fun _ => pure_grows _
  | dup =>
    refine Grows.mono (j := 1) ?_ (by decide)
    exact (peek_grows 0).after fun _ => push_grows _
  | nip => exact (require_grows 2).after fun _ => (remove_grows 1).after fun _ => pure_grows _
  | «over» =>
    refine Grows.mono (j := 1) ?_ (by decide)
    exact (require_grows 2).after fun _ => (peek_grows 1).after fun _ => push_grows _
  | pick =>
    refine Grows.mono (j := 1) ?_ (by decide)
    exact (require_grows 2).after fun _ => popDepth_grows.after fun depth =>
      (peek_grows depth).after fun _ => push_grows _
  | roll =>
    refine Grows.mono (j := 1) ?_ (by decide)
    exact (require_grows 2).after fun _ => popDepth_grows.after fun depth =>
      (remove_grows depth).after fun _ => push_grows _
  | rot =>
    refine Grows.mono (j := 0) ?_ (by decide)
    exact (require_grows 3).after fun _ => (exchange_grows 2 1).after fun _ => exchange_grows 1 0
  | swap =>
    refine Grows.mono (j := 0) ?_ (by decide)
    exact (require_grows 2).after fun _ => exchange_grows 1 0
  | tuck =>
    refine Grows.mono (j := 1) ?_ (by decide)
    exact (require_grows 2).after fun _ => (peek_grows 0).after fun _ => insert_grows 2 _
  | size =>
    refine Grows.mono (j := 1) ?_ (by decide)
    exact (peek_grows 0).after fun _ => pushNumber_grows _

theorem UnaryOp.run_grows (op : UnaryOp) : Grows List.length 1 op.run :=
  popNumber_grows.after fun _ => pushNumber_grows _

theorem BinaryOp.run_grows (op : BinaryOp) : Grows List.length 1 op.run :=
  (require_grows 2).after fun _ => popNumber_grows.after fun _ => popNumber_grows.after fun _ =>
    pushNumber_grows _

theorem within_grows : Grows List.length 1 within :=
  (require_grows 3).after fun _ => popNumber_grows.after fun _ => popNumber_grows.after fun _ =>
    popNumber_grows.after fun _ => pushBool_grows _

theorem Digest.run_grows (d : Digest) : Grows List.length 1 d.run :=
  pop_grows.after fun _ => push_grows _

theorem testEqual_grows : Grows List.length 1 testEqual :=
  (require_grows 2).after fun _ => pop_grows.after fun _ => pop_grows.after fun _ =>
    pushBool_grows _

-- ---------------------------------------------------------------------------
-- Operations on the machine
-- ---------------------------------------------------------------------------

section OnMachine

variable {rules : Rules} {script : Script} {k : Nat} {α : Type}

theorem onStack_grows {op : StackM α} (h : Grows List.length k op) :
    Grows Machine.depth k (onStack op) := by
  intro m
  have hStack := h m.stack
  rw [leaves_onStack]
  show (leaves op m.stack).length + m.alt.length ≤ m.stack.length + m.alt.length + k
  omega

theorem addOps_grows (count : Nat) : Grows Machine.depth 0 (addOps count) := by
  intro m
  rw [leaves_addOps]
  exact Nat.le_refl _

theorem pushAlt_grows (value : Bytes) : Grows Machine.depth 1 (pushAlt value) :=
  fun _ => Nat.le_refl _

theorem popAlt_grows : Grows Machine.depth 0 popAlt := by
  intro m
  cases hAlt : m.alt with
  | nil =>
    rw [leaves_of_error (popAlt_of_nil hAlt)]
    exact Nat.le_refl _
  | cons value alt =>
    rw [leaves_of_ok (popAlt_of_cons hAlt)]
    show m.stack.length + alt.length ≤ m.stack.length + m.alt.length
    rw [hAlt, List.length_cons]
    omega

theorem record_grows (consultation : Consultation) :
    Grows Machine.depth 0 (record consultation) :=
  fun _ => Nat.le_refl _

theorem testSignature_grows : Grows Machine.depth 1 (testSignature rules script) :=
  (onStack_grows (require_grows 2)).after fun _ => (onStack_grows pop_grows).after fun _ =>
    (onStack_grows pop_grows).after fun _ => get_grows.after fun _ =>
    (record_grows _).after fun _ => onStack_grows (pushBool_grows _)

theorem testSignatures_grows : Grows Machine.depth 1 (testSignatures rules script) :=
  (onStack_grows (popCount_grows _ _)).after fun _ => (addOps_grows _).after fun _ =>
    (onStack_grows (require_grows _)).after fun _ =>
    (onStack_grows (popMany_grows _)).after fun _ =>
    (onStack_grows (popCount_grows _ _)).after fun _ =>
    (onStack_grows (require_grows _)).after fun _ =>
    (onStack_grows (popMany_grows _)).after fun _ => (onStack_grows pop_grows).after fun _ =>
    get_grows.after fun _ => (record_grows _).after fun _ => onStack_grows (pushBool_grows _)

theorem Test.run_grows (t : Test) : Grows Machine.depth 1 (t.run rules script) := by
  cases t with
  | equal => exact onStack_grows testEqual_grows
  | numEqual => exact onStack_grows (BinaryOp.run_grows .numEqual)
  | checkSig => exact testSignature_grows
  | checkMultiSig => exact testSignatures_grows

/-- **No operation adds more than three elements to the stacks.** -/
theorem Operation.execute_grows (op : Operation) :
    Grows Machine.depth 3 (op.execute rules script) := by
  cases op with
  | constant n => exact (onStack_grows (pushNumber_grows n)).mono (by decide)
  | nop => exact pure_grows _
  | verify => exact (onStack_grows (verify_grows .verify)).mono (by decide)
  | opReturn => exact throw_grows _
  | toAltStack =>
    refine Grows.mono (j := 1) ?_ (by decide)
    exact (onStack_grows pop_grows).after fun _ => pushAlt_grows _
  | fromAltStack =>
    refine Grows.mono (j := 1) ?_ (by decide)
    exact popAlt_grows.after fun _ => onStack_grows (push_grows _)
  | stack op => exact onStack_grows op.run_grows
  | unary op => exact (onStack_grows op.run_grows).mono (by decide)
  | binary op => exact (onStack_grows op.run_grows).mono (by decide)
  | within => exact (onStack_grows within_grows).mono (by decide)
  | digest d => exact (onStack_grows d.run_grows).mono (by decide)
  | test t => exact t.run_grows.mono (by decide)
  | testVerify t =>
    refine Grows.mono (j := 1 + 0) ?_ (by decide)
    exact t.run_grows.bind fun _ => onStack_grows (verify_grows _)
  | pushBytes => exact throw_grows _
  | conditional c => exact throw_grows _
  | codeSeparator => exact throw_grows _
  | disabled => exact throw_grows _
  | reserved => exact throw_grows _

-- ---------------------------------------------------------------------------
-- Items
-- ---------------------------------------------------------------------------

theorem whenExecuting_grows {action : MachineM Unit} (h : Grows Machine.depth k action) :
    Grows Machine.depth k (whenExecuting action) := by
  intro m
  unfold leaves whenExecuting
  by_cases hExecuting : m.executing = true
  · rw [if_pos hExecuting]
    exact h m
  · rw [if_neg hExecuting]
    exact Nat.le_add_right _ _

/-- A conditional takes its condition at most. -/
theorem openBranch_grows (expected : Bool) : Grows Machine.depth 0 (openBranch expected) := by
  intro m
  cases hExecuting : m.executing with
  | false =>
    rw [leaves_of_ok (openBranch_of_not_executing hExecuting)]
    exact Nat.le_refl _
  | true =>
    cases hStack : m.stack with
    | nil =>
      rw [leaves_of_error (openBranch_of_nil hExecuting hStack)]
      exact Nat.le_refl _
    | cons value stack =>
      rw [leaves_of_ok (openBranch_of_cons hExecuting hStack)]
      show stack.length + m.alt.length ≤ m.stack.length + m.alt.length
      rw [hStack, List.length_cons]
      omega

theorem flipBranch_grows : Grows Machine.depth 0 flipBranch := by
  intro m
  cases hBranches : m.branches with
  | nil =>
    rw [leaves_of_error (flipBranch_of_nil hBranches)]
    exact Nat.le_refl _
  | cons runs outer =>
    rw [leaves_of_ok (flipBranch_of_cons hBranches)]
    exact Nat.le_refl _

theorem closeBranch_grows : Grows Machine.depth 0 closeBranch := by
  intro m
  cases hBranches : m.branches with
  | nil =>
    rw [leaves_of_error (closeBranch_of_nil hBranches)]
    exact Nat.le_refl _
  | cons runs outer =>
    rw [leaves_of_ok (closeBranch_of_cons hBranches)]
    exact Nat.le_refl _

theorem Conditional.run_grows (c : Conditional) : Grows Machine.depth 0 c.run := by
  cases c with
  | opIf => exact openBranch_grows true
  | opNotIf => exact openBranch_grows false
  | opVerIf => exact throw_grows _
  | opVerNotIf => exact throw_grows _
  | opElse => exact flipBranch_grows
  | opEndIf => exact closeBranch_grows

theorem Operation.run_grows (op : Operation) (stop : Nat) :
    Grows Machine.depth 3 (op.run rules script stop) := by
  cases op with
  | disabled => exact throw_grows _
  | conditional c => exact c.run_grows.mono (by decide)
  | codeSeparator => exact whenExecuting_grows fun _ => Nat.le_add_right _ _
  | _ => exact whenExecuting_grows (Operation.execute_grows _)

theorem countOpcode_grows (code : Opcode) : Grows Machine.depth 0 (countOpcode code) :=
  ite_grows (addOps_grows 1) (pure_grows _)

theorem runItem_grows (item : Item) : Grows Machine.depth 3 (runItem rules script item) := by
  cases hContent : item.content with
  | error e =>
    rw [runItem_of_error hContent]
    exact throw_grows _
  | ok instruction =>
    cases instruction with
    | push data =>
      rw [runItem_of_push hContent]
      have hPush := whenExecuting_grows (onStack_grows (push_grows data))
      exact ite_grows (throw_grows _) (hPush.mono (by decide))
    | op code =>
      cases hOperation : code.operation? with
      | none =>
        rw [runItem_of_unknown hContent hOperation]
        exact throw_grows _
      | some operation =>
        rw [runItem_of_operation hContent hOperation]
        exact (countOpcode_grows code).after fun _ => operation.run_grows item.stop

theorem checkDepth_grows : Grows Machine.depth 0 checkDepth := by
  intro m
  rcases Nat.lt_or_ge Machine.maxDepth m.depth with hLt | hLe
  · rw [leaves_of_error (checkDepth_of_lt hLt)]
    exact Nat.le_refl _
  · rw [leaves_of_ok (checkDepth_of_le hLe)]
    exact Nat.le_refl _

/-- **An item adds at most three elements**, also when it fails. -/
theorem step_grows (item : Item) : Grows Machine.depth 3 (step rules script item) :=
  (runItem_grows item).bind fun _ => checkDepth_grows

-- ---------------------------------------------------------------------------
-- Runs
-- ---------------------------------------------------------------------------

/-- **Wherever a run comes to, the stacks are within the limit**, if they are so in
the beginning. -/
theorem Reaches.depth_le {front : List Item} {m m' : Machine}
    (h : Reaches rules script m front m') (hDepth : m.depth ≤ Machine.maxDepth) :
    m'.depth ≤ Machine.maxDepth := by
  cases h with
  | start => exact hDepth
  | step _ hPass => exact (step_eq_ok_iff.1 hPass).2

/-- A run that has come behind a front has come behind all fronts of it. -/
theorem Reaches.take {front : List Item} {m m' : Machine} (h : Reaches rules script m front m')
    (i : Nat) : ∃ before, Reaches rules script m (front.take i) before := by
  induction h with
  | start => exact ⟨m, by rw [List.take_nil]; exact .start⟩
  | @step front m₁ m₂ item hReach hPass ih =>
    rcases Nat.lt_or_ge front.length i with hLt | hLe
    · have hAll : (front ++ [item]).take i = front ++ [item] :=
        List.take_of_length_le (by rw [List.length_append]; exact hLt)
      rw [hAll]
      exact ⟨m₂, hReach.step hPass⟩
    · rw [List.take_append_of_le_length hLe]
      exact ih

variable {m before after : Machine} {report : Report} {items front rest : List Item} {item : Item}
  {cause : ScriptError}

theorem Completed.length_stack_le (h : Completed rules script m items after report)
    (hDepth : m.depth ≤ Machine.maxDepth) : report.machine.stack.length ≤ Machine.maxDepth := by
  have hAfter := h.reached.depth_le hDepth
  unfold Machine.depth at hAfter
  rw [h.machine_eq]
  omega

/-- The item that stops a run adds three elements at most to what was within the limit. -/
theorem Stopped.length_stack_le
    (h : Stopped rules script m items front item rest before after cause report)
    (hDepth : m.depth ≤ Machine.maxDepth) :
    report.machine.stack.length ≤ Machine.maxDepth + 3 := by
  have hBefore := h.reached.depth_le hDepth
  have hStep : Grows Machine.depth 3 (step rules script item) := step_grows item
  have hGrows := hStep before
  rw [leaves_of_error h.fails] at hGrows
  unfold Machine.depth at hBefore hGrows
  rw [h.machine_eq]
  omega

/-- Every front that a run has read but for its last item is one that it has come behind. -/
theorem exists_reaches_of_lt_steps (rules : Rules) (m : Machine) {script : Script} {i : Nat}
    (hi : i < (script.run rules m).steps) :
    ∃ before, Reaches rules script m.load (script.items.take i) before := by
  cases run_ending rules m script with
  | tooLarge hSize hReport =>
    rw [hReport] at hi
    exact absurd hi (Nat.not_lt_zero i)
  | completed after hSize hCompleted => exact hCompleted.reached.take i
  | stopped front item rest before after cause hStopped =>
    rw [hStopped.steps_eq] at hi
    rw [hStopped.items_eq, List.take_append_of_le_length (Nat.le_of_lt_succ hi)]
    exact hStopped.reached.take i

theorem steps_le_length_items (rules : Rules) (m : Machine) (script : Script) :
    (script.run rules m).steps ≤ script.items.length := by
  cases run_ending rules m script with
  | tooLarge hSize hReport =>
    rw [hReport]
    exact Nat.zero_le _
  | completed after hSize hCompleted => exact Nat.le_of_eq hCompleted.steps_eq
  | stopped front item rest before after cause hStopped =>
    rw [hStopped.steps_eq, hStopped.items_eq, List.length_append, List.length_cons]
    omega

theorem maxDepth_le (rules : Rules) (m : Machine) (script : Script) :
    (script.run rules m).maxDepth ≤ Machine.maxDepth := by
  cases run_ending rules m script with
  | tooLarge hSize hReport =>
    rw [hReport]
    exact Nat.zero_le _
  | completed after hSize hCompleted => exact hCompleted.maxDepth_le
  | stopped front item rest before after cause hStopped => exact hStopped.maxDepth_le

/-- What a run leaves on the main stack, if it failed and if it did not. -/
theorem length_stack_le (rules : Rules) (m : Machine) (script : Script)
    (hStack : m.stack.length ≤ Machine.maxDepth) :
    (script.run rules m).machine.stack.length ≤ Machine.maxDepth + 3 ∧
      ((script.run rules m).result = .ok () →
        (script.run rules m).machine.stack.length ≤ Machine.maxDepth) := by
  have hDepth : m.load.depth ≤ Machine.maxDepth := hStack
  cases run_ending rules m script with
  | tooLarge hSize hReport =>
    rw [hReport]
    exact ⟨Nat.le_add_right_of_le hStack, nofun⟩
  | completed after hSize hCompleted =>
    have hLeft := hCompleted.length_stack_le hDepth
    exact ⟨Nat.le_add_right_of_le hLeft, fun _ => hLeft⟩
  | stopped front item rest before after cause hStopped =>
    refine ⟨hStopped.length_stack_le hDepth, ?_⟩
    intro hSuccess
    rw [hStopped.result_eq] at hSuccess
    cases hSuccess

/-- A script that is too large is not run at all. -/
theorem run_of_maxSize_lt (rules : Rules) (m : Machine) {script : Script}
    (hSize : Script.maxSize < script.length) :
    (script.run rules m).steps = 0 ∧ (script.run rules m).machine.stack = m.stack := by
  rw [Script.run, if_pos hSize]
  exact ⟨rfl, rfl⟩

/-- **Runs are bounded**, however they end. A run reads at most one item for each
byte of the script, and none of a script that is too large. The depth it reports
is within the limit. With a main stack within the limit to begin with, so are
both stacks in front of each item, and the main stack in the end; only an item
that fails may leave three elements more. -/
theorem run_bounded (rules : Rules) (m : Machine) (script : Script) :
    let report := script.run rules m
    report.steps ≤ script.length ∧
      (10000 < script.length → report.steps = 0 ∧ report.machine.stack = m.stack) ∧
      report.maxDepth ≤ 1000 ∧
      (m.stack.length ≤ 1000 →
        (∀ i < report.steps, ∃ before,
          stepAll rules script (script.items.take i) m.load = .ok () before ∧
            before.depth ≤ 1000) ∧
        report.machine.stack.length ≤ 1003 ∧
        (report.result = .ok () → report.machine.stack.length ≤ 1000)) := by
  intro report
  refine ⟨?_, fun hSize => run_of_maxSize_lt rules m hSize, maxDepth_le rules m script, ?_⟩
  · exact Nat.le_trans (steps_le_length_items rules m script) (Script.length_items_le script)
  · intro hStack
    refine ⟨?_, length_stack_le rules m script hStack⟩
    intro i hi
    obtain ⟨before, hReach⟩ := exists_reaches_of_lt_steps rules m hi
    exact ⟨before, reaches_iff_stepAll.1 hReach, hReach.depth_le hStack⟩

/-- The bound is sharp: three elements of a full stack are copied, and it is the
copies that are too much. -/
theorem run_bounded_dup3 :
    let rules : Rules := ⟨{ checkSig := fun _ _ _ => false }, Flags.none⟩
    let m := Machine.ofStack (List.replicate 1000 [])
    let report := Script.run rules m [0x6f]
    m.stack.length ≤ 1000 ∧ report.machine.stack.length = 1003 ∧
      report.machine.stack.length ≤ 1003 := by
  intro rules m report
  have hStack : m.stack.length ≤ 1000 := Nat.le_of_eq List.length_replicate
  obtain ⟨-, -, -, hBounds⟩ := run_bounded rules m [0x6f]
  exact ⟨hStack, by decide +kernel, (hBounds hStack).2.1⟩

end OnMachine

end LegacyScript
