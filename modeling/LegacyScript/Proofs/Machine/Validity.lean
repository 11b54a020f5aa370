import LegacyScript.Proofs.Conditional.Nesting
import LegacyScript.Proofs.Script.Items
import LegacyScript.Verify

/-!
# What a script that succeeds looks like

Some rules do not depend on which branches run: they hold for the script as a
whole, or it cannot succeed. `Script.Valid` collects them. It speaks of the
bytes of the script only, and of no stack, checker or flags.

Each rule is checked somewhere else — on entry, where an item is decoded, on
the way of a push, of an opcode, of a conditional, and at the end — and all of
them in skipped branches, too. What carries them over a run is the invariant
`Sound`: the items read so far are admissible and nested, the machine has a
flag for each open conditional, and its budget has paid for all that counts.

## Results

* `passed_of_step`    — what an item that passes has shown.
* `Reaches.sound`     — the invariant holds wherever a run comes to.
* `valid_of_success`  — scripts that succeed are valid, alone and in a spend.
-/

namespace LegacyScript

open MachineM Item

-- ---------------------------------------------------------------------------
-- Static rules
-- ---------------------------------------------------------------------------

/-- Whether an item is an opcode that takes from the budget. -/
def Item.isCounted (item : Item) : Bool :=
  match item.content with
  | .ok (.op code) => code.isCounted
  | _ => false

/-- The rules that the bytes of a script obey, whatever branches run. -/
structure Script.Valid (script : Script) : Prop where
  size : script.length ≤ 10000
  decodes : ∀ item ∈ script.items, item.content.isOk = true
  payload : ∀ item ∈ script.items, ∀ data, item.content = .ok (.push data) → data.length ≤ 520
  known : ∀ item ∈ script.items, item.opcode.isKnown = true
  enabled : ∀ item ∈ script.items, item.opcode.isDisabled = false
  notVerIf : ∀ item ∈ script.items, item.opcode ≠ 0x65 ∧ item.opcode ≠ 0x66
  counted : script.items.countP Item.isCounted ≤ 201
  nested : WellNested script.items

-- ---------------------------------------------------------------------------
-- One item
-- ---------------------------------------------------------------------------

/-- An item that cannot be wrong wherever it stands. -/
def Item.Admissible (item : Item) : Prop :=
  match item.content with
  | .error _ => False
  | .ok (.push data) => data.length ≤ Script.maxElementSize
  | .ok (.op code) => ∃ operation, code.operation? = some operation ∧
      operation ≠ .disabled ∧ operation ≠ .conditional .opVerIf ∧
      operation ≠ .conditional .opVerNotIf

/-- What an item has shown that took the machine `m₁` to `m₂` and passed. -/
structure Passed (item : Item) (m₁ m₂ : Machine) : Prop where
  admissible : item.Admissible
  level : (m₂.branches.length : Int) = m₁.branches.length + item.levelChange
  inside : item.role = .separates → 1 ≤ m₁.branches.length
  paid : m₁.opCount + (if item.isCounted then 1 else 0) ≤ m₂.opCount
  affordable : item.isCounted = true → m₁.opCount + 1 ≤ Machine.maxOps

variable {rules : Rules} {script : Script} {item : Item} {m m₁ m₂ : Machine}

/-- What a conditional does to the number of flags. -/
theorem Role.length_of_action {role : Role} (h : role.action m₁ = .ok () m₂) :
    (m₂.branches.length : Int) = m₁.branches.length + role.levelChange ∧
      (role = .separates → 1 ≤ m₁.branches.length) ∧ m₂.opCount = m₁.opCount := by
  cases role with
  | plain =>
    obtain rfl : m₁ = m₂ := (EStateM.Result.ok.inj h).2
    simp [levelChange]
  | opens expected =>
    change openBranch expected m₁ = .ok () m₂ at h
    cases hExecuting : m₁.executing with
    | false =>
      rw [openBranch_of_not_executing hExecuting] at h
      obtain rfl := (EStateM.Result.ok.inj h).2
      simp [levelChange]
    | true =>
      cases hStack : m₁.stack with
      | nil =>
        rw [openBranch_of_nil hExecuting hStack] at h
        cases h
      | cons value stack =>
        rw [openBranch_of_cons hExecuting hStack] at h
        obtain rfl := (EStateM.Result.ok.inj h).2
        simp [levelChange]
  | separates =>
    change flipBranch m₁ = .ok () m₂ at h
    cases hBranches : m₁.branches with
    | nil =>
      rw [flipBranch_of_nil hBranches] at h
      cases h
    | cons runs outer =>
      rw [flipBranch_of_cons hBranches] at h
      obtain rfl := (EStateM.Result.ok.inj h).2
      simp [levelChange]
  | closes =>
    change closeBranch m₁ = .ok () m₂ at h
    cases hBranches : m₁.branches with
    | nil =>
      rw [closeBranch_of_nil hBranches] at h
      cases h
    | cons runs outer =>
      rw [closeBranch_of_cons hBranches] at h
      obtain rfl := (EStateM.Result.ok.inj h).2
      simp [levelChange]

/-- What passes in a branch that may or may not run leaves the flags, and gives
nothing back to the budget. -/
theorem keeps_of_whenExecuting {x : MachineM Unit} (hx : Plain script x)
    (h : whenExecuting x m₁ = .ok () m₂) :
    m₂.branches = m₁.branches ∧ m₁.opCount ≤ m₂.opCount := by
  cases hExecuting : m₁.executing with
  | false =>
    rw [whenExecuting_of_not_executing hExecuting] at h
    obtain rfl : m₁ = m₂ := (EStateM.Result.ok.inj h).2
    exact ⟨rfl, Nat.le_refl _⟩
  | true =>
    rw [whenExecuting_of_executing hExecuting] at h
    have hOps := hx.opCount_le m₁
    rw [leaves_of_ok h] at hOps
    exact ⟨hx.branchFree.branches_eq h, hOps⟩

/-- What an operation has shown that passes. -/
theorem Operation.shown_of_run {operation : Operation} {stop : Nat}
    (h : operation.run rules script stop m₁ = .ok () m₂) :
    (operation ≠ .disabled ∧ operation ≠ .conditional .opVerIf ∧
        operation ≠ .conditional .opVerNotIf) ∧
      (m₂.branches.length : Int) = m₁.branches.length + operation.role.levelChange ∧
      (operation.role = .separates → 1 ≤ m₁.branches.length) ∧ m₁.opCount ≤ m₂.opCount := by
  by_cases hRole : operation.role = .plain
  · rw [Operation.run_of_role_eq hRole] at h
    obtain ⟨⟨⟩, m, hCheck, hAct⟩ := bind_eq_ok_iff.1 h
    obtain ⟨rfl, hWrong⟩ := Operation.check_eq_ok_iff.1 hCheck
    obtain ⟨hBranches, hOps⟩ := keeps_of_whenExecuting (operation.act_plain stop) hAct
    rw [hBranches, hRole, Role.levelChange, Int.add_zero]
    exact ⟨hWrong, rfl, by simp, hOps⟩
  · rw [Operation.run_of_role_ne hRole] at h
    obtain ⟨hLevel, hInside, hOps⟩ := Role.length_of_action h
    refine ⟨⟨?_, ?_, ?_⟩, hLevel, hInside, hOps.ge⟩
    · rintro rfl
      exact hRole rfl
    · rintro rfl
      exact hRole rfl
    · rintro rfl
      exact hRole rfl

theorem passed_of_runItem (h : runItem rules script item m₁ = .ok () m₂) :
    Passed item m₁ m₂ := by
  cases hContent : item.content with
  | error e =>
    rw [runItem_of_error hContent] at h
    cases h
  | ok instruction =>
    cases instruction with
    | push data =>
      rw [runItem_of_push hContent] at h
      split at h
      · cases h
      · next hSize =>
        have hPlain : Plain script (onStack (StackM.push data)) := .onStack _
        obtain ⟨hBranches, hOps⟩ := keeps_of_whenExecuting hPlain h
        have hRole : item.role = .plain := by simp [Item.role, Item.operation?, hContent]
        refine ⟨?_, ?_, ?_, ?_, ?_⟩
        · simpa [Admissible, hContent] using hSize
        · rw [hBranches, levelChange, hRole, Role.levelChange, Int.add_zero]
        · simp [hRole]
        · simpa [isCounted, hContent] using hOps
        · simp [isCounted, hContent]
    | op code =>
      cases hOperation : code.operation? with
      | none =>
        rw [runItem_of_unknown hContent hOperation] at h
        cases h
      | some operation =>
        rw [runItem_of_operation hContent hOperation] at h
        obtain ⟨⟨⟩, m, hCount, hRun⟩ := bind_eq_ok_iff.1 h
        obtain ⟨rfl, hAfford⟩ := countOpcode_eq_ok hCount
        obtain ⟨hWrong, hLevel, hInside, hOps⟩ := Operation.shown_of_run hRun
        have hRole := role_of_operation hContent hOperation
        refine ⟨?_, ?_, ?_, ?_, ?_⟩
        · simpa [Admissible, hContent, hOperation] using hWrong
        · rw [levelChange, hRole]
          exact hLevel
        · rw [hRole]
          exact hInside
        · simpa [isCounted, hContent] using hOps
        · intro hCounted
          have hCode : code.isCounted = true := by simpa [isCounted, hContent] using hCounted
          simpa [hCode] using hAfford hCode

theorem passed_of_step (h : step rules script item m₁ = .ok () m₂) : Passed item m₁ m₂ :=
  passed_of_runItem (step_eq_ok_iff.1 h).1

-- ---------------------------------------------------------------------------
-- The invariant of a run
-- ---------------------------------------------------------------------------

/-- What the items read so far and the machine have to do with each other. -/
structure Sound (front : List Item) (m : Machine) : Prop where
  admissible : ∀ item ∈ front, item.Admissible
  nested : NestedFrom 0 front
  level : levelFrom 0 front = m.branches.length
  paid : front.countP Item.isCounted ≤ m.opCount
  affordable : front.countP Item.isCounted ≤ Machine.maxOps

theorem sound_nil (hBranches : m.branches = []) : Sound [] m where
  admissible := by simp
  nested := nestedFrom_nil 0
  level := by simp [hBranches]
  paid := by simp
  affordable := by simp

/-- **One step keeps the invariant.** -/
theorem Sound.append_singleton {front : List Item} (h : Sound front m₁)
    (hPassed : Passed item m₁ m₂) : Sound (front ++ [item]) m₂ := by
  have hLevel : levelFrom 0 (front ++ [item]) = m₂.branches.length := by
    rw [levelFrom_append, h.level, List.map_singleton, List.sum_singleton, hPassed.level]
  have hCount : (front ++ [item]).countP Item.isCounted =
      front.countP Item.isCounted + if item.isCounted then 1 else 0 := by
    rw [List.countP_append, List.countP_singleton]
  have hPaid := h.paid
  refine ⟨?_, ?_, hLevel, ?_, ?_⟩
  · intro other hOther
    rcases List.mem_append.mp hOther with hFront | hItem
    · exact h.admissible other hFront
    · rw [List.mem_singleton.mp hItem]
      exact hPassed.admissible
  · refine h.nested.append_singleton ?_ ?_
    · rw [hLevel]
      exact Int.natCast_nonneg _
    · intro hRole
      rw [h.level]
      exact_mod_cast hPassed.inside hRole
  · have := hPassed.paid
    omega
  · -- what counts now was paid before it, and one more fits
    rw [hCount]
    split
    · next hCounted =>
      have := hPassed.affordable hCounted
      omega
    · exact h.affordable

/-- **The invariant holds wherever a run comes to.** -/
theorem Reaches.sound {front : List Item} (h : Reaches rules script m front m₁)
    (hBranches : m.branches = []) : Sound front m₁ := by
  induction h with
  | start => exact sound_nil hBranches
  | step _ hPass ih => exact ih.append_singleton (passed_of_step hPass)

-- ---------------------------------------------------------------------------
-- Scripts that succeed
-- ---------------------------------------------------------------------------

/-- The opcode of an admissible item stands for something that is not always wrong. -/
theorem Item.Admissible.exists_operation (h : item.Admissible) (hMem : item ∈ script.items) :
    ∃ operation, item.opcode.operation? = some operation ∧ operation ≠ .disabled ∧
      operation ≠ .conditional .opVerIf ∧ operation ≠ .conditional .opVerNotIf := by
  unfold Admissible at h
  cases hContent : item.content with
  | error e => simp [hContent] at h
  | ok instruction =>
    cases instruction with
    | push data =>
      have hOperation := Opcode.operation?_of_le (Script.opcode_le_of_push hMem hContent)
      exact ⟨.pushBytes, hOperation, by decide, by decide, by decide⟩
    | op code =>
      obtain rfl := Script.opcode_eq_of_op hMem hContent
      simpa only [hContent] using h

/-- **Where a run has read all items and left no conditional open, the script is valid.** -/
theorem Sound.valid (h : Sound script.items m) (hSize : script.length ≤ Script.maxSize)
    (hBranches : m.branches = []) : script.Valid where
  size := hSize
  decodes := by
    intro item hMem
    have hAdmissible := h.admissible item hMem
    unfold Admissible at hAdmissible
    cases hContent : item.content with
    | error e => simp [hContent] at hAdmissible
    | ok instruction => rfl
  payload := by
    intro item hMem data hContent
    have hAdmissible := h.admissible item hMem
    unfold Admissible at hAdmissible
    rw [hContent] at hAdmissible
    exact hAdmissible
  known := by
    intro item hMem
    obtain ⟨operation, hOperation, -⟩ := (h.admissible item hMem).exists_operation hMem
    rw [Opcode.isKnown, hOperation]
    rfl
  enabled := by
    intro item hMem
    obtain ⟨operation, hOperation, hDisabled, -⟩ := (h.admissible item hMem).exists_operation hMem
    rw [Opcode.isDisabled, hOperation]
    simpa using hDisabled
  notVerIf := by
    intro item hMem
    obtain ⟨operation, hOperation, -, hVerIf, hVerNotIf⟩ :=
      (h.admissible item hMem).exists_operation hMem
    constructor
    · intro hOpcode
      rw [hOpcode] at hOperation
      exact hVerIf (Option.some.inj hOperation.symm)
    · intro hOpcode
      rw [hOpcode] at hOperation
      exact hVerNotIf (Option.some.inj hOperation.symm)
  counted := h.affordable
  nested := by
    refine ⟨h.nested, ?_⟩
    rw [h.level, hBranches]
    rfl

/-- A script whose run succeeds is valid. -/
theorem valid_of_run (h : (script.run rules m).result = .ok ()) : script.Valid := by
  obtain ⟨hSize, after, hCompleted, hBranches⟩ := run_success h
  exact (hCompleted.reached.sound rfl).valid hSize hBranches

/-- A verification succeeds only when both its scripts do. -/
theorem run_of_verifyScripts {unlocking locking : Script}
    (h : (verifyScripts rules unlocking locking).result = .ok ()) :
    ∃ m₁ m₂, (unlocking.run rules m₁).result = .ok () ∧
      (locking.run rules m₂).result = .ok () := by
  simp only [verifyScripts] at h
  cases hFirst : (unlocking.run rules (Machine.ofStack [])).result with
  | error cause => simp [hFirst] at h
  | ok u =>
    generalize (unlocking.run rules (Machine.ofStack [])).machine = m at h
    cases hSecond : (locking.run rules m).result with
    | error cause => simp [hFirst, hSecond] at h
    | ok u => exact ⟨Machine.ofStack [], m, hFirst, hSecond⟩

/-- **Scripts that succeed are valid**, whatever the checker, the flags and the
stack. No other script is part of a verification that succeeds, be it with a
checker of its own or for the input of a transaction. -/
theorem valid_of_success :
    (∀ rules m script, (Script.run rules m script).result = .ok () → script.Valid) ∧
      (∀ rules unlocking locking, (verifyScripts rules unlocking locking).result = .ok () →
        unlocking.Valid ∧ locking.Valid) ∧
      ∀ (tx : Transaction) index unlocking locking flags demanded,
        (tx.verifyInput index unlocking locking flags demanded).result = .ok () →
          unlocking.Valid ∧ locking.Valid := by
  have hScripts : ∀ rules unlocking locking,
      (verifyScripts rules unlocking locking).result = .ok () →
        unlocking.Valid ∧ locking.Valid := by
    intro rules unlocking locking h
    obtain ⟨m₁, m₂, hUnlocking, hLocking⟩ := run_of_verifyScripts h
    exact ⟨valid_of_run hUnlocking, valid_of_run hLocking⟩
  refine ⟨fun rules m script h => valid_of_run h, hScripts, ?_⟩
  intro tx index unlocking locking flags demanded h
  unfold Transaction.verifyInput at h
  split at h
  · cases h
  · exact hScripts _ unlocking locking h

/-- A push that is passed over is among what a successful verification says about. -/
theorem valid_skippedPush :
    let rules : Rules := ⟨{ checkSig := fun _ _ _ => false }, Flags.none⟩
    let unlocking : Script := [0x00]
    let locking : Script := [0x63, 0x02, 0xaa, 0xbb, 0x67, 0x51, 0x68]
    (verifyScripts rules unlocking locking).result = .ok () ∧ unlocking.Valid ∧ locking.Valid := by
  intro rules unlocking locking
  have hSuccess : (verifyScripts rules unlocking locking).result = .ok () := by decide +kernel
  exact ⟨hSuccess, valid_of_success.2.1 rules unlocking locking hSuccess⟩

end LegacyScript
