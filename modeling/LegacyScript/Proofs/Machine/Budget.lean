import LegacyScript.Proofs.Machine.Books
import Mathlib.Algebra.BigOperators.Group.List.Basic
import Mathlib.Algebra.Ring.Nat

/-!
# The budget of operations

A script may count 201 operations. Every opcode that does not push is one, in a branch
that does not run, too, and every key of an executed test of several signatures is one
more. `charged` is this sum over the visits of a run, and the counter of the machine is
never anything else (`Visited.opCount_eq`).

The budget bounds the work on signatures. A test of one signature is paid for by its
opcode, and a test of several signatures checks no more of them than it has keys, all of
which it pays for before the first is tried. So there are no more checks in a run than
operations counted, also where the run fails.

## Results

* `Visited.opCount_eq` — the counter is what the visits are charged.
* `Visited.checks_le`  — signature checks are paid for.
* `budget_exact`       — the budget over whole runs.
-/

namespace LegacyScript

variable {rules : Rules} {script : Script} {m now : Machine} {past : List Visit} {visit : Visit}

-- ---------------------------------------------------------------------------
-- What is charged
-- ---------------------------------------------------------------------------

/-- The operations that some visits are charged: the opcodes that count, and the keys of
the tests of several signatures that were executed. -/
def charged (visits : List Visit) : Nat :=
  visits.countP (fun visit => visit.item.isCounted) + (visits.map Visit.keyCount).sum

theorem charged_append_singleton (past : List Visit) (visit : Visit) :
    charged (past ++ [visit]) = charged past + visit.cost := by
  unfold charged Visit.cost
  rw [List.countP_append, List.countP_singleton, List.map_append, List.sum_append,
    List.map_singleton, List.sum_singleton]
  omega

theorem Visit.isCounted_of_asksChecker {t : Test} (hTest : visit.test? = some t)
    (hAsks : t.asksChecker = true) : visit.item.isCounted = true := by
  obtain ⟨operation, hExecuted, hOperation⟩ := Option.bind_eq_some_iff.1 hTest
  have hItem : visit.item.operation? = some operation := by
    unfold executed? at hExecuted
    split at hExecuted
    · exact hExecuted
    · cases hExecuted
  have hBooks : operation.writesBooks = true := by
    simp [Operation.writesBooks, hOperation, hAsks]
  obtain ⟨code, hContent, hCode⟩ := Item.exists_code_of_operation? hItem
  simp only [Item.isCounted, hContent]
  exact Opcode.isCounted_of_writesBooks hCode hBooks

/-- What a visit asks is paid for by it: the check of one signature by the opcode, those of
several by their keys. -/
theorem Visit.countP_asked_le {calls : List Call} (hAsks : visit.Asks rules script calls) :
    calls.countP Call.checksSignature ≤ visit.cost := by
  obtain ⟨t, hTest, operands, hTakes, rfl⟩ := hAsks
  have hChecks : (operands.outcome rules script visit.before).calls.countP Call.checksSignature ≤
      operands.pubkeys.length := Checker.countP_matchAll_calls_le
  have hPaid : operands.pubkeys.length ≤ visit.cost := by
    unfold cost keyCount
    rw [hTest]
    -- what the test takes is read off the stack, so that the cases are those of `Takes`
    generalize hStack : visit.before.stack = stack at hTakes
    generalize hKeys : operands.pubkeys = pubkeys at hTakes
    generalize operands.signatures = signatures at hTakes
    cases hTakes with
    | checkSig pubkey signature below =>
      rw [if_pos (isCounted_of_asksChecker hTest rfl)]
      exact Nat.le_refl 1
    | checkMultiSig hKeyCount hLimit _ _ =>
      show _ ≤ _ + (Stack.count? Machine.maxPubkeys _).getD 0
      rw [Stack.count?_of_parse hKeyCount hLimit]
      exact Nat.le_add_left _ _
  omega

-- ---------------------------------------------------------------------------
-- The invariant of a run
-- ---------------------------------------------------------------------------

/-- **The counter is what the visits are charged**, and it is within the budget. -/
theorem Visited.opCount_eq (h : Visited rules script m past now) (hStart : m.opCount = 0) :
    now.opCount = charged past ∧ now.opCount ≤ Machine.maxOps := by
  induction h with
  | start =>
    rw [hStart]
    exact ⟨rfl, Nat.zero_le _⟩
  | @next past visit _ hMem hOk ih =>
    obtain ⟨hCount, hLimit⟩ := ih
    have hSettled : visit.Settled rules script := Visit.settled hMem hLimit
    have hPaid := hSettled.opCount_eq hOk
    have hAfford := hSettled.affordable hOk
    rw [charged_append_singleton, ← hCount]
    exact ⟨hPaid, hPaid.le.trans hAfford⟩

/-- A visit adds no more signature checks than it is charged operations, and none where
that is too much. -/
theorem Visit.checks_le (hMem : visit.item ∈ script.items)
    (hOps : visit.before.opCount ≤ Machine.maxOps)
    (hChecks : visit.before.calls.countP Call.checksSignature ≤ visit.before.opCount) :
    (visit.after rules script).calls.countP Call.checksSignature ≤ Machine.maxOps ∧
      (visit.after rules script).calls.countP Call.checksSignature ≤
        visit.before.opCount + visit.cost := by
  have hSettled : visit.Settled rules script := Visit.settled hMem hOps
  rcases hSettled.asked with hSame | ⟨hAfford, calls, hAsks, hMore⟩
  · rw [hSame]
    exact ⟨by omega, by omega⟩
  · -- only what is paid for asks at all
    have hAsked := countP_asked_le hAsks
    rw [hMore, List.countP_append]
    exact ⟨by omega, by omega⟩

/-- **Signature checks are paid for.** -/
theorem Visited.checks_le (h : Visited rules script m past now) (hStart : m.opCount = 0)
    (hCalls : m.calls = []) : now.calls.countP Call.checksSignature ≤ now.opCount := by
  induction h with
  | start =>
    rw [hCalls]
    exact Nat.zero_le _
  | @next past visit hVisited hMem hOk ih =>
    have hLimit := (hVisited.opCount_eq hStart).2
    have hSettled : visit.Settled rules script := Visit.settled hMem hLimit
    rw [hSettled.opCount_eq hOk]
    exact (Visit.checks_le hMem hLimit ih).2

theorem countP_run_calls_le (rules : Rules) (m : Machine) (script : Script) :
    (script.run rules m).machine.calls.countP Call.checksSignature ≤ Machine.maxOps := by
  obtain ⟨-, -, hEnding⟩ := run_visits rules m script
  cases hEnding with
  | passed hVisited _ =>
    have hChecks := hVisited.checks_le rfl rfl
    have hLimit := (hVisited.opCount_eq rfl).2
    omega
  | failed past visit cause _ hMem hVisited _ hMachine _ =>
    have hLimit := (hVisited.opCount_eq rfl).2
    rw [hMachine]
    exact (Visit.checks_le hMem hLimit (hVisited.checks_le rfl rfl)).1

-- ---------------------------------------------------------------------------
-- Whole runs
-- ---------------------------------------------------------------------------

/-- **The budget is exact.** The visits of a run are those of the items that it reads, each
with the machine that the items in front of it lead to. Behind every item that passes the
counter is what the visits so far are charged, which is 201 at most. An item fails for want
of budget just when its opcode is known and the charge, its own included, is more than that;
and a run fails for it just when one of its items does. However a run ends, no more than 201
signatures were checked in it. -/
theorem budget_exact (rules : Rules) (m : Machine) (script : Script) :
    let report := script.run rules m
    let visits := script.visits rules m
    visits.length = report.steps ∧ visits.map Visit.item = script.items.take report.steps ∧
      (∀ front visit rest, visits = front ++ visit :: rest →
        stepAll rules script (front.map Visit.item) m.load = .ok () visit.before ∧
        (visit.result rules script = .ok () →
          (visit.after rules script).opCount = charged (front ++ [visit]) ∧
            charged (front ++ [visit]) ≤ 201) ∧
        (visit.result rules script = .error .opCount ↔
          visit.item.opcode.isKnown = true ∧ 201 < charged (front ++ [visit]))) ∧
      (report.result = .error .opCount ↔
        ∃ visit ∈ visits, visit.result rules script = .error .opCount) ∧
      report.machine.calls.countP Call.checksSignature ≤ 201 := by
  intro report visits
  obtain ⟨hSteps, hItems, -⟩ := run_visits rules m script
  have hFails : report.result = .error .opCount ↔
      ∃ visit ∈ visits, visit.result rules script = .error .opCount :=
    run_result_eq_error_iff rules m script (by decide) (by decide)
  refine ⟨hSteps, hItems, ?_, hFails, countP_run_calls_le rules m script⟩
  intro front visit rest hVisits
  obtain ⟨hMem, hVisited⟩ := visited_of_visits hVisits
  obtain ⟨hCount, hLimit⟩ := hVisited.opCount_eq rfl
  have hSettled : visit.Settled rules script := Visit.settled hMem hLimit
  rw [charged_append_singleton, ← hCount]
  refine ⟨reaches_iff_stepAll.1 hVisited.reaches, ?_, hSettled.overdrawn_iff⟩
  intro hOk
  exact ⟨hSettled.opCount_eq hOk, hSettled.affordable hOk⟩

/-- With 181 operations done before it, a test of twenty keys is one too many. -/
theorem budget_exact_lastKey :
    let rules : Rules := ⟨{ checkSig := fun _ _ _ => false }, Flags.none⟩
    let m := Machine.ofStack ([20] :: List.replicate 22 [])
    let script : Script := List.replicate 181 0x61 ++ [0xae]
    let visits := script.visits rules m
    ∃ front visit, visits = front ++ [visit] ∧ visit.test? = some .checkMultiSig ∧
      charged (front ++ [visit]) = 202 ∧ visit.result rules script = .error .opCount := by
  intro rules m script visits
  have hCharged : charged visits = 202 := by decide +kernel
  have hLast : visits.getLast?.map (fun visit => (visit.test?, visit.item.opcode.isKnown)) =
      some (some .checkMultiSig, true) := by decide +kernel
  obtain ⟨visit, hGet, hVisit⟩ := Option.map_eq_some_iff.1 hLast
  obtain ⟨front, hSplit⟩ := List.getLast?_eq_some_iff.1 hGet
  obtain ⟨hTest, hKnown⟩ := Prod.mk.inj hVisit
  rw [hSplit] at hCharged
  obtain ⟨-, -, hVisits, -⟩ := budget_exact rules m script
  have hOverdrawn := (hVisits front visit [] hSplit).2.2.2 ⟨hKnown, by rw [hCharged]; decide⟩
  exact ⟨front, visit, hSplit, hTest, hCharged, hOverdrawn⟩

end LegacyScript
