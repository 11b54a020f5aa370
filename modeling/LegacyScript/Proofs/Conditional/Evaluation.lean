import LegacyScript.Proofs.Conditional.Tree

/-!
# Evaluating the tree of a script

The machine walks over a script once, from front to back, and keeps a flag for
each open conditional. A reader of the script thinks of it as a tree: take the
condition, run every other arm, pass over the rest. `Block.eval` is that
reading. It recurses on the tree, has no branch flags, and does not know what
an executing machine is:

* an instruction of an arm that is run is checked, and then acts (`runLeaf`);
* an instruction of an arm that is passed over is checked, and nothing else
  (`scan`).

The checks are those that no branch escapes: the size of a push, whether the
opcode is known, the budget of operations, and the opcodes that are always wrong.

`run_eq_eval` says that the two come to the same: the same result, the same
main stack and the same calls to the checker. The invariant that carries the
simulation is that the machine stands at the flags `branches` wherever the
evaluation of the tree stands between two subtrees, for the flags that were
there before (`Follows`); all of them are true where the tree is run, and some
is false where it is passed over.
-/

namespace LegacyScript

open MachineM Item

-- ---------------------------------------------------------------------------
-- The evaluator
-- ---------------------------------------------------------------------------

/-- Takes the top of the stack as a condition. -/
def popCondition : MachineM Bool := fun m =>
  match m.stack with
  | [] => .error .unbalancedConditional m
  | value :: stack => .ok (Number.truthy value) { m with stack }

namespace Item

/-- The checks of an item that no branch escapes. They take from the budget of
operations, and touch nothing else. -/
def check (item : Item) : MachineM Unit :=
  match item.content with
  | .error _ => throw .malformedPush
  | .ok (.push data) => if Script.maxElementSize < data.length then throw .pushSize else pure ()
  | .ok (.op code) =>
    match code.operation? with
    | none => throw .unknownOpcode
    | some operation => do
      countOpcode code
      operation.check

/-- What an instruction does where it is executed: its checks, and then its work. -/
def execute (rules : Rules) (script : Script) (item : Item) : MachineM Unit := do
  item.check
  match item.content with
  | .error _ => pure ()
  | .ok (.push data) => onStack (StackM.push data)
  | .ok (.op code) =>
    match code.operation? with
    | none => pure ()
    | some operation => operation.act rules script item.stop

/-- The condition of a conditional that is executed. -/
def condition (item : Item) : MachineM Bool := do
  item.check
  popCondition

/-- Passes over an item. -/
def scan (item : Item) : MachineM Unit := do
  item.check
  checkDepth

/-- Runs an instruction. -/
def runLeaf (rules : Rules) (script : Script) (item : Item) : MachineM Unit := do
  item.execute rules script
  checkDepth

/-- Opens a conditional that is executed, and answers its condition. -/
def takeCondition (item : Item) : MachineM Bool := do
  let condition ← item.condition
  checkDepth
  pure condition

end Item

/-- Passes over items. -/
def scanAll (items : List Item) : MachineM Unit := forM items Item.scan

mutual

/-- Runs a block. At a conditional, the first arm runs if the condition is the
expected one. -/
def Block.eval (rules : Rules) (script : Script) : Block → MachineM Unit
  | .nil => pure ()
  | .leaf item _ rest => do
    item.runLeaf rules script
    rest.eval rules script
  | .cond opener expected _ arms rest => do
    let condition ← opener.takeCondition
    arms.eval rules script (condition == expected)
    rest.eval rules script

/-- Runs the arms of a conditional in turn: every other one, from the first on if
`runs` says so, and the others are passed over. -/
def Arms.eval (rules : Rules) (script : Script) (runs : Bool) : Arms → MachineM Unit
  | .last arm closer _ => do
    (if runs then arm.eval rules script else scanAll arm.items)
    closer.scan
  | .next arm separator _ others => do
    (if runs then arm.eval rules script else scanAll arm.items)
    separator.scan
    others.eval rules script (!runs)

end

-- ---------------------------------------------------------------------------
-- Following
-- ---------------------------------------------------------------------------

/-- The machine follows the evaluation of a tree: both answer, and the machine
differs just in having the flags that belong to the answer, or both fail for one
cause, and the machine differs at most in its flags. -/
inductive Follows {α : Type} (branches : α → List Bool) :
    EStateM.Result ScriptError Machine Unit → EStateM.Result ScriptError Machine α → Prop
  | answer (a : α) (m : Machine) :
      Follows branches (.ok () (m.withBranches (branches a))) (.ok a m)
  | failure (cause : ScriptError) (m : Machine) (opened : List Bool) :
      Follows branches (.error cause (m.withBranches opened)) (.error cause m)

/-- Lines follow lines. -/
theorem Follows.bind {α β : Type} {middle : α → List Bool} {branches : β → List Bool}
    {x f : MachineM Unit} {y : MachineM α} {g : α → MachineM β} {m₁ m₂ : Machine}
    (h : Follows middle (x m₁) (y m₂))
    (hNext : ∀ a m, Follows branches (f (m.withBranches (middle a))) (g a m)) :
    Follows branches ((x >>= fun _ => f) m₁) ((y >>= g) m₂) := by
  generalize hx : x m₁ = outcome₁ at h
  generalize hy : y m₂ = outcome₂ at h
  cases h with
  | answer a m =>
    rw [bind_of_ok hx, bind_of_ok hy]
    exact hNext a m
  | failure cause m opened =>
    rw [bind_of_error hx, bind_of_error hy]
    exact .failure cause m opened

theorem popCondition_of_nil {m : Machine} (hStack : m.stack = []) :
    popCondition m = .error .unbalancedConditional m := by
  simp [popCondition, hStack]

theorem popCondition_of_cons {m : Machine} {value : Bytes} {stack : Stack}
    (hStack : m.stack = value :: stack) :
    popCondition m = .ok (Number.truthy value) { m with stack } := by
  simp [popCondition, hStack]

variable {rules : Rules} {script : Script} {item : Item} {branches : List Bool}

/-- An action that does not look at the flags follows itself. -/
theorem BranchFree.follows {x : MachineM Unit} (h : BranchFree x) (m : Machine) :
    Follows (fun _ => branches) (x (m.withBranches branches)) (x m) := by
  rw [h m branches]
  cases x m with
  | ok u m => exact .answer u m
  | error cause m => exact .failure cause m branches

-- ---------------------------------------------------------------------------
-- Items
-- ---------------------------------------------------------------------------

/-- In a branch that does not run, an operation without a role is only checked. -/
theorem Operation.run_of_not_executing {operation : Operation} {stop : Nat} {m : Machine}
    (hRole : operation.role = .plain) (hSkip : m.executing = false) :
    operation.run rules script stop m = operation.check m := by
  rw [Operation.run_of_role_eq hRole]
  cases hCheck : operation.check m with
  | ok u after =>
    obtain ⟨rfl, -⟩ := Operation.check_eq_ok_iff.1 hCheck
    rw [bind_of_ok hCheck, whenExecuting_of_not_executing hSkip]
  | error cause after => rw [bind_of_error hCheck]

/-- In a branch that runs, an operation without a role is checked and does its work. -/
theorem Operation.run_of_executing {operation : Operation} {stop : Nat} {m : Machine}
    (hRole : operation.role = .plain) (hRun : m.executing = true) :
    operation.run rules script stop m =
      (operation.check >>= fun _ => operation.act rules script stop) m := by
  rw [Operation.run_of_role_eq hRole]
  cases hCheck : operation.check m with
  | ok u after =>
    obtain ⟨rfl, -⟩ := Operation.check_eq_ok_iff.1 hCheck
    rw [bind_of_ok hCheck, bind_of_ok hCheck, whenExecuting_of_executing hRun]
  | error cause after => rw [bind_of_error hCheck, bind_of_error hCheck]

theorem Operation.check_branchFree (operation : Operation) : BranchFree operation.check := by
  unfold Operation.check
  split <;> exact fun _ _ => rfl

section Content

variable {e : DecodeError} {data : Bytes} {code : Opcode} {operation : Operation}

theorem check_of_error (hContent : item.content = .error e) :
    item.check = throw .malformedPush := by
  simp only [Item.check, hContent]

theorem check_of_push (hContent : item.content = .ok (.push data)) :
    item.check = if Script.maxElementSize < data.length then throw .pushSize else pure () := by
  simp only [Item.check, hContent]

theorem check_of_unknown (hContent : item.content = .ok (.op code))
    (hOperation : code.operation? = none) : item.check = throw .unknownOpcode := by
  simp only [Item.check, hContent, hOperation]

theorem check_of_operation (hContent : item.content = .ok (.op code))
    (hOperation : code.operation? = some operation) :
    item.check = countOpcode code >>= fun _ => operation.check := by
  simp only [Item.check, hContent, hOperation]

theorem execute_of_push (hContent : item.content = .ok (.push data)) :
    item.execute rules script = item.check >>= fun _ => onStack (StackM.push data) := by
  simp only [Item.execute, hContent]

theorem execute_of_operation (hContent : item.content = .ok (.op code))
    (hOperation : code.operation? = some operation) :
    item.execute rules script =
      item.check >>= fun _ => operation.act rules script item.stop := by
  simp only [Item.execute, hContent, hOperation]

/-- An item that cannot be decoded or is not known fails its checks, so that nothing
follows them. -/
theorem execute_of_check_eq_throw (h : item.check = throw cause) (m : Machine) :
    item.execute rules script m = .error cause m := by
  rw [Item.execute, h]
  rfl

end Content

/-- Where some branch does not run, the machine passes over an item without a role. -/
theorem follows_check (hRole : item.role = .plain) (hSkip : branches.all id = false)
    (m : Machine) :
    Follows (fun _ => branches) (runItem rules script item (m.withBranches branches))
      (item.check m) := by
  have hExecuting : ∀ m : Machine, (m.withBranches branches).executing = false := fun _ => hSkip
  cases hContent : item.content with
  | error e =>
    rw [runItem_of_error hContent, check_of_error hContent]
    exact .failure _ m branches
  | ok instruction =>
    cases instruction with
    | push data =>
      rw [runItem_of_push hContent, check_of_push hContent]
      split
      · exact .failure _ m branches
      · rw [whenExecuting_of_not_executing (hExecuting m)]
        exact .answer () m
    | op code =>
      cases hOperation : code.operation? with
      | none =>
        rw [runItem_of_unknown hContent hOperation, check_of_unknown hContent hOperation]
        exact .failure _ m branches
      | some operation =>
        rw [runItem_of_operation hContent hOperation, check_of_operation hContent hOperation]
        rw [role_of_operation hContent hOperation] at hRole
        refine ((countOpcode_branchFree code).follows m).bind fun _ m => ?_
        rw [Operation.run_of_not_executing hRole (hExecuting m)]
        exact operation.check_branchFree.follows m

/-- Where all branches run, the machine executes an item without a role. -/
theorem follows_execute (hRole : item.role = .plain) (hRun : branches.all id = true)
    (m : Machine) :
    Follows (fun _ => branches) (runItem rules script item (m.withBranches branches))
      (item.execute rules script m) := by
  have hExecuting : ∀ m : Machine, (m.withBranches branches).executing = true := fun _ => hRun
  cases hContent : item.content with
  | error e =>
    rw [runItem_of_error hContent, execute_of_check_eq_throw (check_of_error hContent)]
    exact .failure _ m branches
  | ok instruction =>
    cases instruction with
    | push data =>
      rw [runItem_of_push hContent, execute_of_push hContent, check_of_push hContent]
      split
      · exact .failure _ m branches
      · rw [whenExecuting_of_executing (hExecuting m)]
        exact (onStack_branchFree _).follows m
    | op code =>
      cases hOperation : code.operation? with
      | none =>
        rw [runItem_of_unknown hContent hOperation,
          execute_of_check_eq_throw (check_of_unknown hContent hOperation)]
        exact .failure _ m branches
      | some operation =>
        rw [runItem_of_operation hContent hOperation, execute_of_operation hContent hOperation,
          check_of_operation hContent hOperation, bind_assoc]
        rw [role_of_operation hContent hOperation] at hRole
        refine ((countOpcode_branchFree code).follows m).bind fun _ m => ?_
        rw [Operation.run_of_executing hRole (hExecuting m)]
        have hAct : BranchFree (operation.act rules script item.stop) :=
          (operation.act_plain item.stop).branchFree
        exact (operation.check_branchFree.bind fun _ => hAct).follows m

-- ---------------------------------------------------------------------------
-- Items with a role
-- ---------------------------------------------------------------------------

/-- An operation with a role passes all checks but the budget. -/
theorem Operation.check_of_role_ne {operation : Operation} (hRole : operation.role ≠ .plain) :
    operation.check = pure () := by
  cases operation with
  | conditional c =>
    cases c with
    | opVerIf => exact absurd rfl hRole
    | opVerNotIf => exact absurd rfl hRole
    | _ => rfl
  | _ => exact absurd rfl hRole

/-- An item with a role counts as its opcode does, and then does what its role
does. Where that follows an action on the other side, the machine follows. -/
theorem follows_role {α : Type} {flags : α → List Bool} {act : MachineM α}
    (hRole : item.role ≠ .plain)
    (hAct : ∀ m, Follows flags (item.role.action (m.withBranches branches)) (act m))
    (m : Machine) :
    Follows flags (runItem rules script item (m.withBranches branches))
      ((item.check >>= fun _ => act) m) := by
  obtain ⟨code, operation, hContent, hOperation, hEq⟩ := exists_operation_of_role_ne hRole
  have hPlain : operation.role ≠ .plain := hEq ▸ hRole
  rw [runItem_of_operation hContent hOperation, check_of_operation hContent hOperation,
    Operation.check_of_role_ne hPlain, Operation.run_of_role_ne hPlain, hEq, bind_assoc]
  refine ((countOpcode_branchFree code).follows m).bind fun _ m => ?_
  exact hAct m

/-- Where all branches run, an opener takes its condition, and the first arm runs if
that is the expected one. -/
theorem follows_condition {expected : Bool} (hRole : item.role = .opens expected)
    (hRun : branches.all id = true) (m : Machine) :
    Follows (fun condition => (condition == expected) :: branches)
      (runItem rules script item (m.withBranches branches)) (item.condition m) := by
  refine follows_role (by simp [hRole]) (fun m => ?_) m
  have hExecuting : (m.withBranches branches).executing = true := hRun
  rw [hRole]
  show Follows _ (openBranch expected (m.withBranches branches)) (popCondition m)
  cases hStack : m.stack with
  | nil =>
    rw [openBranch_of_nil hExecuting hStack, popCondition_of_nil hStack]
    exact .failure _ m branches
  | cons value stack =>
    rw [openBranch_of_cons hExecuting hStack, popCondition_of_cons hStack]
    exact .answer (Number.truthy value) { m with stack }

theorem follows_takeCondition {expected : Bool} (hRole : item.role = .opens expected)
    (hRun : branches.all id = true) (m : Machine) :
    Follows (fun condition => (condition == expected) :: branches)
      (step rules script item (m.withBranches branches)) (item.takeCondition m) := by
  refine (follows_condition hRole hRun m).bind fun condition m => ?_
  have hDepth : Follows (fun answer => (answer == expected) :: branches)
      ((checkDepth >>= fun _ => pure ()) (m.withBranches ((condition == expected) :: branches)))
      ((checkDepth >>= fun _ => pure condition) m) :=
    (checkDepth_branchFree.follows m).bind fun _ m => .answer condition m
  rwa [bind_pure_unit] at hDepth

/-- An item whose role leads from the flags `branches` to `after`, whatever else the
machine holds, is passed over on the other side. -/
theorem follows_scan_of_action {branches after : List Bool} (hRole : item.role ≠ .plain)
    (hAction : ∀ m : Machine,
      item.role.action (m.withBranches branches) = .ok () (m.withBranches after))
    (m : Machine) :
    Follows (fun _ => after) (step rules script item (m.withBranches branches))
      (item.scan m) := by
  have hCheck : Follows (fun _ => after) (runItem rules script item (m.withBranches branches))
      ((item.check >>= fun _ => pure ()) m) := by
    refine follows_role hRole (fun m => ?_) m
    rw [hAction m]
    exact .answer () m
  rw [bind_pure_unit] at hCheck
  exact hCheck.bind fun _ m => checkDepth_branchFree.follows m

theorem follows_separator {runs : Bool} (hRole : item.role = .separates) (m : Machine) :
    Follows (fun _ => (!runs) :: branches)
      (step rules script item (m.withBranches (runs :: branches))) (item.scan m) := by
  refine follows_scan_of_action (by simp [hRole]) (fun m => ?_) m
  rw [hRole]
  exact flipBranch_of_cons (m := m.withBranches (runs :: branches)) rfl

theorem follows_closer {runs : Bool} (hRole : item.role = .closes) (m : Machine) :
    Follows (fun _ => branches)
      (step rules script item (m.withBranches (runs :: branches))) (item.scan m) := by
  refine follows_scan_of_action (by simp [hRole]) (fun m => ?_) m
  rw [hRole]
  exact closeBranch_of_cons (m := m.withBranches (runs :: branches)) rfl

/-- Where some branch does not run, an opener takes no condition, and opens a branch
that does not run either. -/
theorem follows_opener {expected : Bool} (hRole : item.role = .opens expected)
    (hSkip : branches.all id = false) (m : Machine) :
    Follows (fun _ => false :: branches) (step rules script item (m.withBranches branches))
      (item.scan m) := by
  refine follows_scan_of_action (by simp [hRole]) (fun m => ?_) m
  rw [hRole]
  exact openBranch_of_not_executing (m := m.withBranches branches) hSkip

-- ---------------------------------------------------------------------------
-- Trees that are passed over
-- ---------------------------------------------------------------------------

/-- Sequences that are passed over follow one another. -/
theorem Follows.scanAll_append {front items : List Item} {middle after : List Bool} {m : Machine}
    (hFront : Follows (fun _ => middle) (stepAll rules script front (m.withBranches branches))
      (scanAll front m))
    (hItems : ∀ m, Follows (fun _ => after) (stepAll rules script items (m.withBranches middle))
      (scanAll items m)) :
    Follows (fun _ => after) (stepAll rules script (front ++ items) (m.withBranches branches))
      (scanAll (front ++ items) m) := by
  rw [stepAll_append, scanAll, List.forM_append]
  exact hFront.bind fun _ m => hItems m

theorem Follows.scanAll_cons {items : List Item} {middle after : List Bool} {m : Machine}
    (hItem : Follows (fun _ => middle) (step rules script item (m.withBranches branches))
      (item.scan m))
    (hItems : ∀ m, Follows (fun _ => after) (stepAll rules script items (m.withBranches middle))
      (scanAll items m)) :
    Follows (fun _ => after) (stepAll rules script (item :: items) (m.withBranches branches))
      (scanAll (item :: items) m) := by
  rw [stepAll_cons, scanAll, List.forM_cons]
  exact hItem.bind fun _ m => hItems m

mutual

/-- A block is passed over where some branch does not run, and the flags behind it are
those in front. -/
theorem Block.follows_scanAll (block : Block) {branches : List Bool}
    (hSkip : branches.all id = false) (m : Machine) :
    Follows (fun _ => branches) (stepAll rules script block.items (m.withBranches branches))
      (scanAll block.items m) := by
  cases block with
  | nil => exact .answer () m
  | leaf item hRole rest =>
    have hItem : Follows (fun _ => branches)
        (step rules script item (m.withBranches branches)) (item.scan m) :=
      (follows_check hRole hSkip m).bind fun _ m => checkDepth_branchFree.follows m
    exact hItem.scanAll_cons fun m => rest.follows_scanAll hSkip m
  | cond opener expected hRole arms rest =>
    refine (follows_opener hRole hSkip m).scanAll_cons fun m => ?_
    exact (arms.follows_scanAll false hSkip m).scanAll_append fun m => rest.follows_scanAll hSkip m

/-- All arms are passed over, whatever the flag of their own conditional says. -/
theorem Arms.follows_scanAll (arms : Arms) (runs : Bool) {branches : List Bool}
    (hSkip : branches.all id = false) (m : Machine) :
    Follows (fun _ => branches)
      (stepAll rules script arms.items (m.withBranches (runs :: branches)))
      (scanAll arms.items m) := by
  have hInner : (runs :: branches).all id = false := by
    rw [List.all_cons, hSkip, Bool.and_false]
  cases arms with
  | last arm closer hRole =>
    refine (arm.follows_scanAll hInner m).scanAll_append fun m => ?_
    exact (follows_closer hRole m).scanAll_cons fun m => .answer () m
  | next arm separator hRole others =>
    refine (arm.follows_scanAll hInner m).scanAll_append fun m => ?_
    exact (follows_separator hRole m).scanAll_cons fun m => others.follows_scanAll (!runs) hSkip m

end

-- ---------------------------------------------------------------------------
-- Trees that are run
-- ---------------------------------------------------------------------------

/-- An arm is run or passed over as the flag of its conditional says. -/
theorem follows_arm {arm : Block} {runs : Bool}
    (hEval : ∀ m, Follows (fun _ => true :: branches)
      (stepAll rules script arm.items (m.withBranches (true :: branches)))
      (arm.eval rules script m))
    (m : Machine) :
    Follows (fun _ => runs :: branches)
      (stepAll rules script arm.items (m.withBranches (runs :: branches)))
      ((if runs then arm.eval rules script else scanAll arm.items) m) := by
  cases runs with
  | true => exact hEval m
  | false =>
    have hSkip : (false :: branches).all id = false := rfl
    exact arm.follows_scanAll hSkip m

mutual

/-- A block runs as its tree is evaluated where all branches run. -/
theorem Block.follows_eval (block : Block) {branches : List Bool}
    (hRun : branches.all id = true) (m : Machine) :
    Follows (fun _ => branches) (stepAll rules script block.items (m.withBranches branches))
      (block.eval rules script m) := by
  cases block with
  | nil => exact .answer () m
  | leaf item hRole rest =>
    rw [Block.items, Block.eval, stepAll_cons]
    have hItem : Follows (fun _ => branches)
        (step rules script item (m.withBranches branches)) (item.runLeaf rules script m) :=
      (follows_execute hRole hRun m).bind fun _ m => checkDepth_branchFree.follows m
    exact hItem.bind fun _ m => rest.follows_eval hRun m
  | cond opener expected hRole arms rest =>
    rw [Block.items, Block.eval, stepAll_cons, stepAll_append]
    refine (follows_takeCondition hRole hRun m).bind fun condition m => ?_
    exact (arms.follows_eval (condition == expected) hRun m).bind fun _ m =>
      rest.follows_eval hRun m

/-- The arms run in turn as they are evaluated: the flag of their conditional says
which, and every separator turns it. -/
theorem Arms.follows_eval (arms : Arms) (runs : Bool) {branches : List Bool}
    (hRun : branches.all id = true) (m : Machine) :
    Follows (fun _ => branches)
      (stepAll rules script arms.items (m.withBranches (runs :: branches)))
      (arms.eval rules script runs m) := by
  have hInner : (true :: branches).all id = true := by
    rw [List.all_cons, hRun]
    rfl
  cases arms with
  | last arm closer hRole =>
    rw [Arms.items, Arms.eval, stepAll_append]
    refine (follows_arm (fun m => arm.follows_eval hInner m) m).bind fun _ m => ?_
    rw [stepAll_cons, stepAll_nil, bind_pure_unit]
    exact follows_closer hRole m
  | next arm separator hRole others =>
    rw [Arms.items, Arms.eval, stepAll_append]
    refine (follows_arm (fun m => arm.follows_eval hInner m) m).bind fun _ m => ?_
    rw [stepAll_cons]
    exact (follows_separator hRole m).bind fun _ m => others.follows_eval (!runs) hRun m

end

-- ---------------------------------------------------------------------------
-- Whole scripts
-- ---------------------------------------------------------------------------

/-- **A run evaluates the tree of the script.** A script that is not too large and
whose conditionals are well nested is the text of one tree, and the run has the
result, leaves the main stack and makes the calls that the evaluation of the
tree does. -/
theorem run_eq_eval (rules : Rules) (m : Machine) {script : Script}
    (hSize : script.length ≤ Script.maxSize) (hNested : WellNested script.items) :
    (∃! tree : Block, tree.items = script.items) ∧
      ∀ tree : Block, tree.items = script.items →
        let report := script.run rules m
        let initial := Machine.ofStack m.stack
        report.result = answer (tree.eval rules script) initial ∧
          report.machine.stack = (leaves (tree.eval rules script) initial).stack ∧
          report.machine.calls = (leaves (tree.eval rules script) initial).calls := by
  refine ⟨hNested.existsUnique_block, fun tree hTree => ?_⟩
  -- the machine starts without flags, so that all branches there are run
  have hFollows : Follows (fun _ => []) (stepAll rules script tree.items m.load)
      (tree.eval rules script m.load) := tree.follows_eval rfl m.load
  rw [hTree] at hFollows
  show (script.run rules m).result = answer (tree.eval rules script) m.load ∧
    (script.run rules m).machine.stack = (leaves (tree.eval rules script) m.load).stack ∧
    (script.run rules m).machine.calls = (leaves (tree.eval rules script) m.load).calls
  generalize hEval : tree.eval rules script m.load = outcome at hFollows
  cases run_ending rules m script with
  | tooLarge hLarge hReport => exact absurd hLarge (Nat.not_lt.mpr hSize)
  | completed after _ hCompleted =>
    rw [hCompleted.stepAll_eq] at hFollows
    cases hFollows with
    | answer u treeAfter =>
      rw [hCompleted.result_eq, hCompleted.machine_eq, answer_of_ok hEval, leaves_of_ok hEval]
      exact ⟨rfl, rfl, rfl⟩
  | stopped front item rest before after cause hStopped =>
    rw [hStopped.stepAll_eq] at hFollows
    cases hFollows with
    | failure _ treeAfter opened =>
      rw [hStopped.result_eq, hStopped.machine_eq, answer_of_error hEval, leaves_of_error hEval]
      exact ⟨rfl, rfl, rfl⟩

/-- Conditionals in both kinds of arms, with more than one separator: the arms that
are run leave 2, 3 and 4, and no signature is tested. -/
theorem eval_repeatedElse :
    let rules : Rules := ⟨{ checkSig := fun _ _ _ => true }, Flags.none⟩
    let script : Script := [0x51, 0x63, 0x00, 0x64, 0x52, 0x67, 0x67, 0x53, 0x68,
      0x67, 0x00, 0x63, 0xac, 0x68, 0x67, 0x54, 0x68]
    script.length ≤ Script.maxSize ∧ WellNested script.items ∧
      ∃ tree : Block, tree.items = script.items ∧
        answer (tree.eval rules script) (Machine.ofStack []) = .ok () ∧
        (leaves (tree.eval rules script) (Machine.ofStack [])).stack = [[4], [3], [2]] ∧
        (leaves (tree.eval rules script) (Machine.ofStack [])).calls = [] := by
  intro rules script
  have hSize : script.length ≤ Script.maxSize := by decide
  have hNested : WellNested script.items := by decide +kernel
  obtain ⟨⟨tree, hTree, -⟩, hTrees⟩ := run_eq_eval rules (Machine.ofStack []) hSize hNested
  obtain ⟨hResult, hStack, hCalls⟩ := hTrees tree hTree
  refine ⟨hSize, hNested, tree, hTree, ?_, ?_, ?_⟩
  · exact hResult.symm.trans (by decide +kernel)
  · exact hStack.symm.trans (by decide +kernel)
  · exact hCalls.symm.trans (by decide +kernel)

end LegacyScript
