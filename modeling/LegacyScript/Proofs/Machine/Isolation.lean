import LegacyScript.Proofs.Machine.Trace
import LegacyScript.Verify

/-!
# What a script leaves to the next one

One machine runs many scripts. What it holds besides the main stack is left as it is when a
script ends, and a script that fails may leave conditionals open, operations counted, elements
on the alt stack and the script code somewhere in its middle. None of that is found by the
next script: of two machines with one main stack each run is the same (`run_eq_of_stack_eq`).

A verification is the case of two scripts. Where the unlocking script succeeds, the rest is
up to the locking script and the main stack that it finds (`verifyScripts_of_ok`), and the
verdict is read off the report of that one run.

## Results

* `run_eq_of_stack_eq`  — a run depends on the main stack alone.
* `verifyScripts_of_ok` — a verification behind an unlocking script that succeeds.
* `runs_isolated`       — no history of a machine matters, nor what unlocked a spend.
-/

namespace LegacyScript

/-- A script to be run, and the main stack that it finds. -/
structure Task where
  stack : Stack
  script : Script

namespace Machine

/-- Gives a machine the main stack of a task, and runs its script. All else is on the machine
as earlier tasks left it. -/
def perform (rules : Rules) (m : Machine) (task : Task) : Report :=
  task.script.run rules { m with stack := task.stack }

/-- The machine behind a history of tasks, whatever came of them. -/
def behind (rules : Rules) (m : Machine) (history : List Task) : Machine :=
  history.foldl (fun m task => (m.perform rules task).machine) m

end Machine

variable {rules : Rules} {script unlocking locking : Script} {m₁ m₂ : Machine}

-- ---------------------------------------------------------------------------
-- One run
-- ---------------------------------------------------------------------------

/-- **A run depends on the main stack alone**: what else a machine holds is not found by
the script. -/
theorem run_eq_of_stack_eq (h : m₁.stack = m₂.stack) :
    script.run rules m₁ = script.run rules m₂ := by
  have hLoad : m₁.load = m₂.load := by rw [Machine.load, Machine.load, h]
  unfold Script.run
  rw [hLoad]

/-- A run is that of a machine which is new. -/
theorem run_eq_ofStack (m : Machine) :
    script.run rules m = script.run rules (Machine.ofStack m.stack) :=
  run_eq_of_stack_eq rfl

-- ---------------------------------------------------------------------------
-- A locking script
-- ---------------------------------------------------------------------------

namespace Report

/-- What the report of a locking script says of the spend. -/
def verdict (report : Report) : Except VerifyError Unit :=
  match report.result with
  | .error cause => .error (.script cause)
  | .ok () => if report.machine.stack.isTrue then .ok () else .error (.script .evalFalse)

/-- What is logged on account of a locking script. -/
def verdictLog (report : Report) : List LogLine :=
  match report.result with
  | .error cause => report.log ++ [.lockingFailed cause]
  | .ok () =>
    if report.machine.stack.isTrue then [] else [.notTrue report.machine.stack.length]

end Report

/-- **Behind an unlocking script that succeeds**, the verification is the run of the locking
script, on any machine with the main stack that is left. -/
theorem verifyScripts_of_ok {m : Machine}
    (hOk : (unlocking.run rules (Machine.ofStack [])).result = .ok ())
    (hStack : m.stack = (unlocking.run rules (Machine.ofStack [])).machine.stack) :
    let first := unlocking.run rules (Machine.ofStack [])
    let second := locking.run rules m
    verifyScripts rules unlocking locking =
      ⟨second.verdict, first.machine.calls ++ second.machine.calls, second.verdictLog⟩ := by
  intro first second
  have hSecond : locking.run rules first.machine = second := run_eq_of_stack_eq hStack.symm
  unfold verifyScripts
  simp only [hOk]
  rw [hSecond, Report.verdict, Report.verdictLog]
  cases second.result with
  | error cause => rfl
  | ok u =>
    by_cases hTrue : second.machine.stack.isTrue = true
    · simp only [if_pos hTrue]
      rfl
    · simp only [if_neg hTrue]
      rfl

/-- Behind an unlocking script that fails, nothing is run. -/
theorem verifyScripts_of_error {cause : ScriptError}
    (hError : (unlocking.run rules (Machine.ofStack [])).result = .error cause) :
    let first := unlocking.run rules (Machine.ofStack [])
    verifyScripts rules unlocking locking =
      ⟨.error (.script cause), first.machine.calls, first.log ++ [.unlockingFailed cause]⟩ := by
  unfold verifyScripts
  simp only [hError]

-- ---------------------------------------------------------------------------
-- Isolation
-- ---------------------------------------------------------------------------

/-- **Scripts are isolated from each other** but for the main stack. Behind any history of
tasks a machine runs a script just as a new one does, and so reports the same result, stacks,
depth, number of steps, calls and log. Of two unlocking scripts that succeed and leave one
main stack, each leads to the same run of a locking script: the verdict and the log are the
same, and so are the calls behind those of the unlocking script. -/
theorem runs_isolated (rules : Rules) :
    (∀ (m : Machine) (history : List Task) (task : Task),
      (m.behind rules history).perform rules task =
        task.script.run rules (Machine.ofStack task.stack)) ∧
    ∀ unlocking₁ unlocking₂ locking : Script,
      let first₁ := unlocking₁.run rules (Machine.ofStack [])
      let first₂ := unlocking₂.run rules (Machine.ofStack [])
      first₁.result = .ok () → first₂.result = .ok () →
      first₁.machine.stack = first₂.machine.stack →
        let second := locking.run rules first₁.machine
        let verification₁ := verifyScripts rules unlocking₁ locking
        let verification₂ := verifyScripts rules unlocking₂ locking
        locking.run rules first₂.machine = second ∧
          verification₁.result = verification₂.result ∧
          verification₁.log = verification₂.log ∧
          verification₁.calls = first₁.machine.calls ++ second.machine.calls ∧
          verification₂.calls = first₂.machine.calls ++ second.machine.calls := by
  constructor
  · intro m history task
    exact run_eq_ofStack { m.behind rules history with stack := task.stack }
  · intro unlocking₁ unlocking₂ locking first₁ first₂ hOk₁ hOk₂ hStack second verification₁
      verification₂
    -- both verifications go on with the run on the one stack that is left
    have h₁ : verification₁ =
        ⟨second.verdict, first₁.machine.calls ++ second.machine.calls, second.verdictLog⟩ :=
      verifyScripts_of_ok hOk₁ rfl
    have h₂ : verification₂ =
        ⟨second.verdict, first₂.machine.calls ++ second.machine.calls, second.verdictLog⟩ :=
      verifyScripts_of_ok hOk₂ hStack
    rw [h₁, h₂]
    exact ⟨run_eq_of_stack_eq hStack.symm, rfl, rfl, rfl, rfl⟩

/-- A script runs out of operations in an open conditional, behind a code separator and with
an element put aside. The next script on that machine counts as many operations as there may
be, and its signature covers all of it. An unlocking script that puts an element aside behind a
separator is as good as one that does not. -/
theorem runs_isolated_leftovers :
    let rules : Rules := ⟨{ checkSig := fun _ _ _ => true }, Flags.none⟩
    let dirty : Task := ⟨[], [0x51, 0x51, 0x6b, 0xab, 0x63] ++ List.replicate 199 0x61⟩
    let task : Task := ⟨[[7], [9]], List.replicate 200 0x61 ++ [0xac]⟩
    let m := (Machine.ofStack []).behind rules [dirty]
    let unlocking₁ : Script := [0x51]
    let unlocking₂ : Script := [0x51, 0x51, 0x6b, 0xab]
    let locking : Script := [0x51, 0xac]
    let first₁ := unlocking₁.run rules (Machine.ofStack [])
    let first₂ := unlocking₂.run rules (Machine.ofStack [])
    m.alt = [[1]] ∧ m.branches = [true] ∧ m.opCount = 202 ∧ m.codeStart = 4 ∧
      m.perform rules task = task.script.run rules (Machine.ofStack [[7], [9]]) ∧
      (m.perform rules task).machine.calls.getLast? = some ⟨.checkSig [9] [7] task.script, true⟩ ∧
      first₁.result = .ok () ∧ first₂.result = .ok () ∧
      first₁.machine.stack = first₂.machine.stack ∧ first₂.machine.alt = [[1]] ∧
      (verifyScripts rules unlocking₁ locking).result =
        (verifyScripts rules unlocking₂ locking).result ∧
      (verifyScripts rules unlocking₂ locking).calls.getLast? =
        some ⟨.checkSig [1] [1] locking, true⟩ := by
  intro rules dirty task m unlocking₁ unlocking₂ locking first₁ first₂
  obtain ⟨hHistory, hUnlocking⟩ := runs_isolated rules
  have hNew := hHistory (Machine.ofStack []) [dirty] task
  have hOk₁ : first₁.result = .ok () := by decide +kernel
  have hOk₂ : first₂.result = .ok () := by decide +kernel
  have hStack : first₁.machine.stack = first₂.machine.stack := by decide +kernel
  obtain ⟨-, hResult, -, -, -⟩ := hUnlocking unlocking₁ unlocking₂ locking hOk₁ hOk₂ hStack
  refine ⟨by decide +kernel, by decide +kernel, by decide +kernel, by decide +kernel, hNew,
    by decide +kernel, hOk₁, hOk₂, hStack, by decide +kernel, hResult, by decide +kernel⟩

end LegacyScript
