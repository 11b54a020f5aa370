import LegacyScript.Machine.Run
import LegacyScript.Proofs.Machine.Actions
import Mathlib.Data.List.Induction

/-!
# Runs, one item after the other

`Script.runItems` keeps a report while it goes. What most statements about a
run need is less: the machine that the run comes to behind a front of the
items. `Reaches` is that relation. An invariant of runs is proved for one
`step` and carried over a run by induction on `Reaches`.

A run of a script that is not too large has one of two ends, which `Completed`
and `Stopped` describe in full:

* `Completed` — the items all ran, and only an open conditional can be wrong;
* `Stopped` — an item failed, behind a front of items that did not.

## Results

* `reaches_iff_stepAll` — to reach a machine is to run the steps in sequence.
* `Reaches.unique`      — a run comes to one machine behind each front.
* `run_ending`          — the ways in which a run can end.
* `run_failure`         — the ways in which it can fail.
-/

namespace LegacyScript

open MachineM

variable {rules : Rules} {script : Script} {item : Item} {m m₁ m₂ : Machine}
  {cause : ScriptError}

-- ---------------------------------------------------------------------------
-- One item
-- ---------------------------------------------------------------------------

theorem countOpcode_branchFree (code : Opcode) : BranchFree (countOpcode code) := by
  unfold countOpcode
  split
  · exact addOps_branchFree 1
  · exact fun _ _ => rfl

/-- An opcode that is counted takes one operation from the budget, and fits it. -/
theorem countOpcode_eq_ok {code : Opcode} (h : countOpcode code m₁ = .ok () m₂) :
    m₂ = { m₁ with opCount := m₁.opCount + if code.isCounted then 1 else 0 } ∧
      (code.isCounted = true → m₂.opCount ≤ Machine.maxOps) := by
  unfold countOpcode at h
  split at h
  · next hCounted =>
    rcases Nat.lt_or_ge Machine.maxOps (m₁.opCount + 1) with hLt | hLe
    · rw [addOps_of_lt hLt] at h
      cases h
    · rw [addOps_of_le hLe] at h
      obtain rfl := (EStateM.Result.ok.inj h).2
      rw [if_pos hCounted]
      exact ⟨rfl, fun _ => hLe⟩
  · next hCounted =>
    obtain rfl : m₁ = m₂ := (EStateM.Result.ok.inj h).2
    rw [if_neg hCounted]
    exact ⟨rfl, fun h => absurd h hCounted⟩

/-- An opcode that is counted fails when it is one too many. -/
theorem countOpcode_eq_error {code : Opcode} (h : countOpcode code m₁ = .error cause m₂) :
    cause = .opCount ∧ code.isCounted = true := by
  unfold countOpcode at h
  split at h
  · next hCounted =>
    rcases Nat.lt_or_ge Machine.maxOps (m₁.opCount + 1) with hLt | hLe
    · rw [addOps_of_lt hLt] at h
      cases h
      exact ⟨rfl, hCounted⟩
    · rw [addOps_of_le hLe] at h
      cases h
  · cases h

theorem leaves_countOpcode (code : Opcode) (m : Machine) :
    ∃ opCount, leaves (countOpcode code) m = { m with opCount } := by
  unfold countOpcode
  split
  · exact ⟨m.opCount + 1, leaves_addOps m 1⟩
  · exact ⟨m.opCount, rfl⟩

section Item

variable {e : DecodeError} {data : Bytes} {code : Opcode} {operation : Operation}

theorem runItem_of_error (hContent : item.content = .error e) :
    runItem rules script item = throw .malformedPush := by
  simp only [runItem, hContent]

theorem runItem_of_push (hContent : item.content = .ok (.push data)) :
    runItem rules script item =
      if Script.maxElementSize < data.length then throw .pushSize
      else whenExecuting (onStack (StackM.push data)) := by
  simp only [runItem, hContent]

theorem runItem_of_unknown (hContent : item.content = .ok (.op code))
    (hOperation : code.operation? = none) :
    runItem rules script item = throw .unknownOpcode := by
  simp only [runItem, hContent, hOperation]

theorem runItem_of_operation (hContent : item.content = .ok (.op code))
    (hOperation : code.operation? = some operation) :
    runItem rules script item =
      countOpcode code >>= fun _ => operation.run rules script item.stop := by
  simp only [runItem, hContent, hOperation]

end Item

-- ---------------------------------------------------------------------------
-- One step
-- ---------------------------------------------------------------------------

theorem checkDepth_of_le (h : m.depth ≤ Machine.maxDepth) : checkDepth m = .ok () m := by
  simp [checkDepth, Nat.not_lt.2 h]

theorem checkDepth_of_lt (h : Machine.maxDepth < m.depth) :
    checkDepth m = .error .stackSize m := by
  simp [checkDepth, h]

theorem leaves_checkDepth (m : Machine) : leaves checkDepth m = m := by
  rcases Nat.lt_or_ge Machine.maxDepth m.depth with hLt | hLe
  · exact leaves_of_error (checkDepth_of_lt hLt)
  · exact leaves_of_ok (checkDepth_of_le hLe)

theorem checkDepth_branchFree : BranchFree checkDepth := by
  intro m branches
  rcases Nat.lt_or_ge Machine.maxDepth m.depth with hLt | hLe
  · rw [checkDepth_of_lt hLt, checkDepth_of_lt (m := m.withBranches branches) hLt]
    rfl
  · rw [checkDepth_of_le hLe, checkDepth_of_le (m := m.withBranches branches) hLe]
    rfl

/-- The check of the depth changes nothing. -/
theorem leaves_step (rules : Rules) (script : Script) (item : Item) (m : Machine) :
    leaves (step rules script item) m = leaves (runItem rules script item) m := by
  unfold step
  rcases leaves_bind (x := runItem rules script item) (s := m) fun _ => checkDepth with
    hLeft | ⟨u, hLeft⟩
  · exact hLeft
  · rw [hLeft, leaves_checkDepth]

/-- An item passes when it does not fail and leaves stacks that are not too deep. -/
theorem step_eq_ok_iff :
    step rules script item m₁ = .ok () m₂ ↔
      runItem rules script item m₁ = .ok () m₂ ∧ m₂.depth ≤ Machine.maxDepth := by
  unfold step
  cases hRun : runItem rules script item m₁ with
  | error cause m =>
    rw [bind_of_error hRun]
    simp
  | ok u m =>
    rw [bind_of_ok hRun]
    by_cases hDepth : m.depth ≤ Machine.maxDepth
    · rw [checkDepth_of_le hDepth]
      simp only [EStateM.Result.ok.injEq, true_and]
      constructor
      · rintro rfl
        exact ⟨rfl, hDepth⟩
      · exact And.left
    · rw [checkDepth_of_lt (Nat.not_le.1 hDepth)]
      simp only [reduceCtorEq, EStateM.Result.ok.injEq, true_and, false_iff, not_and]
      rintro rfl
      exact hDepth

/-- An item stops a run when it fails, or when it leaves stacks that are too deep. -/
theorem step_eq_error_iff :
    step rules script item m₁ = .error cause m₂ ↔
      runItem rules script item m₁ = .error cause m₂ ∨
        runItem rules script item m₁ = .ok () m₂ ∧ Machine.maxDepth < m₂.depth ∧
          cause = .stackSize := by
  unfold step
  cases hRun : runItem rules script item m₁ with
  | error cause' m =>
    rw [bind_of_error hRun]
    simp
  | ok u m =>
    rw [bind_of_ok hRun]
    by_cases hDepth : m.depth ≤ Machine.maxDepth
    · rw [checkDepth_of_le hDepth]
      simp only [reduceCtorEq, EStateM.Result.ok.injEq, true_and, false_or, false_iff, not_and]
      rintro rfl hLt
      omega
    · rw [checkDepth_of_lt (Nat.not_le.1 hDepth)]
      simp only [EStateM.Result.error.injEq, reduceCtorEq, EStateM.Result.ok.injEq, true_and,
        false_or]
      constructor
      · rintro ⟨rfl, rfl⟩
        exact ⟨rfl, Nat.not_le.1 hDepth, rfl⟩
      · rintro ⟨rfl, -, rfl⟩
        exact ⟨rfl, rfl⟩

-- ---------------------------------------------------------------------------
-- Steps in sequence
-- ---------------------------------------------------------------------------

/-- Runs items in sequence, up to the first that fails. -/
def stepAll (rules : Rules) (script : Script) (items : List Item) : MachineM Unit :=
  forM items (step rules script)

@[simp] theorem stepAll_nil : stepAll rules script [] = pure () := rfl

@[simp] theorem stepAll_cons (items : List Item) :
    stepAll rules script (item :: items) =
      step rules script item >>= fun _ => stepAll rules script items := rfl

@[simp] theorem stepAll_append (front items : List Item) :
    stepAll rules script (front ++ items) =
      stepAll rules script front >>= fun _ => stepAll rules script items := by
  simp only [stepAll, List.forM_append]

-- ---------------------------------------------------------------------------
-- Reached machines
-- ---------------------------------------------------------------------------

/-- The items of a front run without failure, and take the machine `m` to the
machine given last. -/
inductive Reaches (rules : Rules) (script : Script) (m : Machine) : List Item → Machine → Prop
  | start : Reaches rules script m [] m
  | step {front : List Item} {m₁ m₂ : Machine} {item : Item}
      (reached : Reaches rules script m front m₁)
      (passes : step rules script item m₁ = .ok () m₂) :
      Reaches rules script m (front ++ [item]) m₂

/-- **To reach a machine is to run the steps in sequence.** -/
theorem reaches_iff_stepAll {front : List Item} :
    Reaches rules script m front m₁ ↔ stepAll rules script front m = .ok () m₁ := by
  constructor
  · intro h
    induction h with
    | start => rfl
    | step _ hPass ih =>
      rw [stepAll_append, bind_of_ok ih, stepAll_cons, bind_of_ok hPass]
      rfl
  · intro h
    induction front using List.reverseRecOn generalizing m₁ with
    | nil =>
      obtain rfl : m = m₁ := by simpa [pure, EStateM.pure] using h
      exact .start
    | append_singleton front item ih =>
      rw [stepAll_append] at h
      cases hFront : stepAll rules script front m with
      | error cause m' =>
        rw [bind_of_error hFront] at h
        cases h
      | ok u m' =>
        rw [bind_of_ok hFront, stepAll_cons] at h
        refine .step (ih hFront) ?_
        cases hStep : step rules script item m' with
        | error cause m'' =>
          rw [bind_of_error hStep] at h
          cases h
        | ok u m'' =>
          rw [bind_of_ok hStep] at h
          exact h

/-- A run comes to one machine behind each front of its items. -/
theorem Reaches.unique {front : List Item} (h₁ : Reaches rules script m front m₁)
    (h₂ : Reaches rules script m front m₂) : m₁ = m₂ := by
  have h := (reaches_iff_stepAll.1 h₁).symm.trans (reaches_iff_stepAll.1 h₂)
  exact (EStateM.Result.ok.inj h).2

-- ---------------------------------------------------------------------------
-- Reports
-- ---------------------------------------------------------------------------

/-- A report of a run whose items all ran. -/
structure Completed (rules : Rules) (script : Script) (m : Machine) (items : List Item)
    (after : Machine) (report : Report) : Prop where
  reached : Reaches rules script m items after
  result_eq : report.result =
    if after.branches.isEmpty then .ok () else .error .unbalancedConditional
  machine_eq : report.machine = after
  steps_eq : report.steps = items.length
  maxDepth_le : report.maxDepth ≤ Machine.maxDepth
  log_eq : report.log = []

/-- A report of a run that stopped at `item`, behind `front` and with `rest` not
run. The failing item found the machine `before` and left `after`. -/
structure Stopped (rules : Rules) (script : Script) (m : Machine) (items : List Item)
    (front : List Item) (item : Item) (rest : List Item) (before after : Machine)
    (cause : ScriptError) (report : Report) : Prop where
  items_eq : items = front ++ item :: rest
  reached : Reaches rules script m front before
  fails : step rules script item before = .error cause after
  result_eq : report.result = .error cause
  machine_eq : report.machine = after
  steps_eq : report.steps = front.length + 1
  maxDepth_le : report.maxDepth ≤ Machine.maxDepth
  log_eq : report.log = [.itemFailed item.opcode item.start cause]

section Reports

variable {items front rest : List Item} {before after : Machine} {report : Report}

theorem Completed.stepAll_eq (h : Completed rules script m items after report) :
    stepAll rules script items m = .ok () after :=
  reaches_iff_stepAll.1 h.reached

theorem Stopped.stepAll_eq
    (h : Stopped rules script m items front item rest before after cause report) :
    stepAll rules script items m = .error cause after := by
  rw [h.items_eq, stepAll_append, bind_of_ok (reaches_iff_stepAll.1 h.reached), stepAll_cons,
    bind_of_error h.fails]

theorem Stopped.mem_items
    (h : Stopped rules script m items front item rest before after cause report) :
    item ∈ items := by
  rw [h.items_eq]
  exact List.mem_append_right _ List.mem_cons_self

end Reports

/-- Behind an item that passes, the others are run. -/
theorem runItems_of_ok {items : List Item} {steps peak : Nat}
    (h : step rules script item m₁ = .ok () m₂) :
    script.runItems rules (item :: items) m₁ steps peak =
      script.runItems rules items m₂ (steps + 1) (max peak m₂.depth) := by
  simp only [Script.runItems, h]

/-- An item that fails is the last one. -/
theorem runItems_of_error {items : List Item} {steps peak : Nat}
    (h : step rules script item m₁ = .error cause m₂) :
    script.runItems rules (item :: items) m₁ steps peak =
      ⟨.error cause, m₂, steps + 1, peak, [.itemFailed item.opcode item.start cause]⟩ := by
  simp only [Script.runItems, h]

/-- From a reached machine on, a run completes or stops. -/
theorem runItems_cases {items front rest : List Item} {peak : Nat}
    (hItems : items = front ++ rest) (hReach : Reaches rules script m front m₁)
    (hPeak : peak ≤ Machine.maxDepth) :
    let report := script.runItems rules rest m₁ front.length peak
    (∃ after, Completed rules script m items after report) ∨
      ∃ front item rest before after cause,
        Stopped rules script m items front item rest before after cause report := by
  induction rest generalizing front m₁ peak with
  | nil =>
    rw [List.append_nil] at hItems
    subst hItems
    exact .inl ⟨m₁, hReach, rfl, rfl, rfl, hPeak, rfl⟩
  | cons item rest ih =>
    cases hStep : step rules script item m₁ with
    | error cause m₂ =>
      rw [runItems_of_error hStep]
      exact .inr ⟨front, item, rest, m₁, m₂, cause, hItems, hReach, hStep, rfl, rfl, rfl, hPeak,
        rfl⟩
    | ok u m₂ =>
      have hDepth : m₂.depth ≤ Machine.maxDepth := (step_eq_ok_iff.1 hStep).2
      have hPeak' : max peak m₂.depth ≤ Machine.maxDepth := by omega
      have hItems' : items = (front ++ [item]) ++ rest := by
        rw [hItems, List.append_assoc]
        rfl
      have h := ih hItems' (hReach.step hStep) hPeak'
      rw [runItems_of_ok hStep]
      rw [List.length_append, List.length_singleton] at h
      exact h

/-- The three ways in which a run can end. -/
inductive Ending (rules : Rules) (script : Script) (m : Machine) (report : Report) : Prop
  | tooLarge (hSize : Script.maxSize < script.length)
      (hReport : report = ⟨.error .scriptSize, m, 0, 0, [.scriptTooLarge script.length]⟩)
  | completed (after : Machine) (hSize : script.length ≤ Script.maxSize)
      (hCompleted : Completed rules script m script.items after report)
  | stopped (front : List Item) (item : Item) (rest : List Item) (before after : Machine)
      (cause : ScriptError)
      (hStopped : Stopped rules script m script.items front item rest before after cause report)

/-- **A run completes or stops**, unless the script is too large to be run at all. -/
theorem run_ending (rules : Rules) (m : Machine) (script : Script) :
    Ending rules script m.load (script.run rules m) := by
  unfold Script.run
  by_cases hSize : Script.maxSize < script.length
  · rw [if_pos hSize]
    exact .tooLarge hSize rfl
  · rw [if_neg hSize]
    rcases runItems_cases rfl .start (Nat.zero_le _) with ⟨after, hCompleted⟩ |
      ⟨front, item, rest, before, after, cause, hStopped⟩
    · exact .completed after (Nat.not_lt.mp hSize) hCompleted
    · exact .stopped front item rest before after cause hStopped

/-- A run that succeeds has run all items, and left no conditional open. -/
theorem run_success (h : (script.run rules m).result = .ok ()) :
    script.length ≤ Script.maxSize ∧ ∃ after,
      Completed rules script m.load script.items after (script.run rules m) ∧
        after.branches = [] := by
  cases run_ending rules m script with
  | tooLarge _ hReport =>
    rw [hReport] at h
    cases h
  | completed after hSize hCompleted =>
    refine ⟨hSize, after, hCompleted, ?_⟩
    by_contra hOpen
    rw [hCompleted.result_eq, if_neg (mt List.isEmpty_iff.1 hOpen)] at h
    cases h
  | stopped front item rest before after cause hStopped =>
    rw [hStopped.result_eq] at h
    cases h

/-- **The ways in which a run can fail**: the script is too large, a conditional is open behind
the last item, or an item failed. -/
theorem run_failure (h : (script.run rules m).result = .error cause) :
    let report := script.run rules m
    (cause = .scriptSize ∧ Script.maxSize < script.length ∧ report.machine = m.load) ∨
    (cause = .unbalancedConditional ∧ ∃ after,
      Completed rules script m.load script.items after report ∧ after.branches ≠ []) ∨
    ∃ front item rest before,
      Stopped rules script m.load script.items front item rest before report.machine cause
        report := by
  intro report
  cases run_ending rules m script with
  | tooLarge hSize hReport =>
    have hResult : report.result = .error .scriptSize := congrArg Report.result hReport
    have hMachine : report.machine = m.load := congrArg Report.machine hReport
    exact .inl ⟨Except.error.inj (h.symm.trans hResult), hSize, hMachine⟩
  | completed after _ hCompleted =>
    have hResult := hCompleted.result_eq
    rw [h] at hResult
    split at hResult
    · cases hResult
    · next hOpen =>
      refine .inr (.inl ⟨Except.error.inj hResult, after, hCompleted, ?_⟩)
      exact mt List.isEmpty_iff.2 hOpen
  | stopped front item rest before after other hStopped =>
    obtain rfl : cause = other := Except.error.inj (h.symm.trans hStopped.result_eq)
    obtain rfl : report.machine = after := hStopped.machine_eq
    exact .inr (.inr ⟨front, item, rest, before, hStopped⟩)

end LegacyScript
