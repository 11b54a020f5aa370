import LegacyScript.Proofs.Machine.Operations

/-!
# Frames

A script that does not ask for the height of the stack cannot tell what lies below the
elements that it needs. If its run succeeds, it succeeds just so on a stack with more
elements at the bottom, as long as these leave room for the deepest stacks of the run.

Items are tame, so one item keeps the frame whatever it is (`runItem_framed`). The limit
on the depth is the only thing in a step that the elements below do matter to, and the
depth that a report gives is what a run needs of it.

## Results

* `step_onto`  — an item that passes passes on more elements, where there is room.
* `run_frame`  — so does a whole script.
-/

namespace LegacyScript

variable {rules : Rules} {script : Script} {item : Item} {items : List Item} {m after : Machine}
  {steps peak : Nat} {base : Stack}

-- ---------------------------------------------------------------------------
-- One item
-- ---------------------------------------------------------------------------

/-- **An item does not see the elements below**, if it does not ask for the height of the
stack. -/
theorem runItem_framed (hDepth : item.operation? ≠ some (.stack .depth)) (base : Stack) :
    Framed (Machine.onto base) (runItem rules script item) := by
  let anything : Effects := ⟨fun _ => True, item.causes, True⟩
  have hTame : MachineM.Tame script anything (fun _ => True) (runItem rules script item) :=
    runItem_tame closed_true (fun _ _ => trivial) trivial (List.Subset.refl _) hDepth
  exact hTame.framed base fun _ => trivial

theorem Machine.depth_onto (m : Machine) (base : Stack) :
    (m.onto base).depth = m.depth + base.length := by
  show (m.stack ++ base).length + m.alt.length = m.stack.length + m.alt.length + base.length
  rw [List.length_append]
  omega

/-- An item that passes passes on more elements just so, where there is room for them. -/
theorem step_onto (hDepth : item.operation? ≠ some (.stack .depth))
    (hPass : step rules script item m = .ok () after)
    (hRoom : base.length + after.depth ≤ Machine.maxDepth) :
    step rules script item (m.onto base) = .ok () (after.onto base) := by
  have hRun := (step_eq_ok_iff.1 hPass).1
  refine step_eq_ok_iff.2 ⟨runItem_framed hDepth base m () after hRun, ?_⟩
  rw [Machine.depth_onto]
  omega

-- ---------------------------------------------------------------------------
-- Whole scripts
-- ---------------------------------------------------------------------------

/-- The depth that is reported is not below any that was seen before. -/
theorem le_maxDepth_runItems : peak ≤ (script.runItems rules items m steps peak).maxDepth := by
  induction items generalizing m steps peak with
  | nil => exact Nat.le_refl peak
  | cons item items ih =>
    cases hStep : step rules script item m with
    | ok u after =>
      rw [runItems_of_ok hStep]
      exact Nat.le_trans (Nat.le_max_left _ _) ih
    | error cause after =>
      rw [runItems_of_error hStep]

/-- How a run on more elements goes, from any place on. The depths that the two runs
report are not compared: they differ by the elements below. -/
theorem runItems_onto (base : Stack) (peak' : Nat)
    (hDepth : ∀ item ∈ items, item.operation? ≠ some (.stack .depth))
    (hResult : (script.runItems rules items m steps peak).result = .ok ())
    (hRoom : base.length + (script.runItems rules items m steps peak).maxDepth ≤
      Machine.maxDepth) :
    let report := script.runItems rules items m steps peak
    let framed := script.runItems rules items (m.onto base) steps peak'
    framed.result = .ok () ∧ framed.machine = report.machine.onto base ∧
      framed.steps = report.steps := by
  induction items generalizing m steps peak peak' with
  | nil => exact ⟨hResult, rfl, rfl⟩
  | cons item items ih =>
    cases hStep : step rules script item m with
    | error cause after =>
      rw [runItems_of_error hStep] at hResult
      cases hResult
    | ok u after =>
      rw [runItems_of_ok hStep] at hResult hRoom
      -- the depth behind this item is one that the report is not below
      have hPeak : after.depth ≤ (script.runItems rules items after (steps + 1)
          (max peak after.depth)).maxDepth :=
        Nat.le_trans (Nat.le_max_right _ _) le_maxDepth_runItems
      have hOnto : step rules script item (m.onto base) = .ok () (after.onto base) :=
        step_onto (hDepth item (List.mem_cons_self ..)) hStep (by omega)
      rw [runItems_of_ok hStep, runItems_of_ok hOnto]
      exact ih _ (fun other hOther => hDepth other (List.mem_cons_of_mem _ hOther)) hResult hRoom

/-- **The frame rule for scripts.** Where no item asks for the height of the stack, and
the run on one stack succeeds, the run on that stack with more elements below succeeds,
too, if these and the depth reported are within the limit together. It leaves the same
elements above those, takes as many steps, and asks the checker the same. -/
theorem run_frame (rules : Rules) (script : Script) (stack base : Stack)
    (hDepth : ∀ item ∈ script.items, item.operation? ≠ some (.stack .depth))
    (hResult : (script.run rules (Machine.ofStack stack)).result = .ok ())
    (hRoom : base.length + (script.run rules (Machine.ofStack stack)).maxDepth ≤ 1000) :
    let report := script.run rules (Machine.ofStack stack)
    let framed := script.run rules (Machine.ofStack (stack ++ base))
    framed.result = .ok () ∧ framed.machine.stack = report.machine.stack ++ base ∧
      framed.steps = report.steps ∧ framed.machine.calls = report.machine.calls := by
  unfold Script.run at *
  by_cases hSize : Script.maxSize < script.length
  · rw [if_pos hSize] at hResult
    cases hResult
  · rw [if_neg hSize] at hResult hRoom
    obtain ⟨hOk, hMachine, hSteps⟩ :=
      runItems_onto base 0 hDepth hResult hRoom
    dsimp only
    rw [if_neg hSize, if_neg hSize]
    have hStack := congrArg Machine.stack hMachine
    have hCalls := congrArg Machine.calls hMachine
    exact ⟨hOk, hStack, hSteps, hCalls⟩

/-- Three elements are copied, tested, put aside and picked from, above as many elements
as there is room for. -/
theorem run_frame_dup3 :
    let rules : Rules := ⟨{ checkSig := fun _ _ _ => true }, Flags.none⟩
    let script : Script := [0x6f, 0xac, 0x6b, 0x51, 0x79, 0x6c]
    let stack : Stack := [[1], [2], [3]]
    let base : Stack := List.replicate 994 [7]
    let framed := script.run rules (Machine.ofStack (stack ++ base))
    (∀ item ∈ script.items, item.operation? ≠ some (.stack .depth)) ∧
      (script.run rules (Machine.ofStack stack)).result = .ok () ∧
      base.length + (script.run rules (Machine.ofStack stack)).maxDepth = 1000 ∧
      framed.result = .ok () ∧ framed.steps = 6 ∧
      framed.machine.stack = [[1], [1], [3], [1], [2], [3]] ++ base ∧
      framed.machine.calls.length = 3 := by
  intro rules script stack base framed
  have hDepth : ∀ item ∈ script.items, item.operation? ≠ some (.stack .depth) := by decide +kernel
  have hResult : (script.run rules (Machine.ofStack stack)).result = .ok () := by decide +kernel
  have hRoom : base.length + (script.run rules (Machine.ofStack stack)).maxDepth = 1000 := by
    rw [List.length_replicate]
    decide +kernel
  have hStack : (script.run rules (Machine.ofStack stack)).machine.stack =
      [[1], [1], [3], [1], [2], [3]] := by decide +kernel
  obtain ⟨hOk, hFramed, hSteps, hCalls⟩ :=
    run_frame rules script stack base hDepth hResult hRoom.le
  refine ⟨hDepth, hResult, hRoom, hOk, ?_, ?_, ?_⟩
  · rw [hSteps]
    decide +kernel
  · rw [hFramed, hStack]
  · rw [hCalls]
    decide +kernel

end LegacyScript
