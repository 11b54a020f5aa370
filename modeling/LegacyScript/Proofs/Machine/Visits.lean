import LegacyScript.Proofs.Conditional.Nesting
import LegacyScript.Proofs.Machine.Operations

/-!
# The visits of a run

`Reaches` forgets the machines that a run has passed through. Where a statement is
about what happened earlier in the run — how much was spent, which separator came
last, what a test found on the stack — the run is data instead: the list of its
visits, each an item with the machine that it finds.

`Visited` relates visits that passed to the machine they come to, and an invariant
of the history is proved by induction on it. The visits of a whole run are such
visits up to the last one, which may fail (`run_visits`).

## Results

* `Visited.reaches`         — the visits lead where the items do.
* `visited_of_visits`       — in front of every visit of a run, the others have passed.
* `run_visits`              — the report of a run, read off its visits.
* `run_result_eq_error_iff` — a run fails for what one of its visits fails for.
-/

namespace LegacyScript

variable {rules : Rules} {script : Script} {m now left : Machine} {item : Item}
  {items : List Item} {cause : ScriptError}

-- ---------------------------------------------------------------------------
-- One visit
-- ---------------------------------------------------------------------------

/-- An item that a run comes to, with the machine that it finds there. -/
structure Visit where
  item : Item
  before : Machine

namespace Visit

/-- The machine that the item leaves, also when it fails. -/
def after (rules : Rules) (script : Script) (visit : Visit) : Machine :=
  leaves (step rules script visit.item) visit.before

/-- Whether the item fails, and why. -/
def result (rules : Rules) (script : Script) (visit : Visit) : Except ScriptError Unit :=
  answer (step rules script visit.item) visit.before

/-- The operation that is executed: there is none where the branch does not run. -/
def executed? (visit : Visit) : Option Operation :=
  if visit.before.executing then visit.item.operation? else none

/-- The test that is executed, alone or with the demand that it succeed. -/
def test? (visit : Visit) : Option Test :=
  visit.executed?.bind Operation.test?

theorem result_eq_ok_iff {visit : Visit} :
    visit.result rules script = .ok () ↔
      step rules script visit.item visit.before = .ok () (visit.after rules script) := by
  unfold result after
  cases hStep : step rules script visit.item visit.before with
  | ok u left => simp [answer_of_ok hStep, leaves_of_ok hStep]
  | error cause left => simp [answer_of_error hStep]

end Visit

-- ---------------------------------------------------------------------------
-- Visits in sequence
-- ---------------------------------------------------------------------------

/-- The visits `past` went over items of the script without failure, and took the
machine `m` to the machine given last. -/
inductive Visited (rules : Rules) (script : Script) (m : Machine) : List Visit → Machine → Prop
  | start : Visited rules script m [] m
  | next {past : List Visit} {visit : Visit} (visited : Visited rules script m past visit.before)
      (mem : visit.item ∈ script.items) (passes : visit.result rules script = .ok ()) :
      Visited rules script m (past ++ [visit]) (visit.after rules script)

theorem Visited.append_singleton {past : List Visit} (h : Visited rules script m past now)
    (hMem : item ∈ script.items) (hPass : step rules script item now = .ok () left) :
    Visited rules script m (past ++ [⟨item, now⟩]) left := by
  let visit : Visit := ⟨item, now⟩
  have hOk : visit.result rules script = .ok () := answer_of_ok hPass
  have hLeft : visit.after rules script = left := leaves_of_ok hPass
  have hBefore : Visited rules script m past visit.before := h
  rw [← hLeft]
  exact hBefore.next hMem hOk

theorem Visited.reaches {past : List Visit} (h : Visited rules script m past now) :
    Reaches rules script m (past.map Visit.item) now := by
  induction h with
  | start => exact .start
  | next _ _ hOk ih =>
    rw [List.map_append]
    exact ih.step (Visit.result_eq_ok_iff.1 hOk)

theorem Visited.result_eq_ok {past : List Visit} (h : Visited rules script m past now)
    {visit : Visit} (hMem : visit ∈ past) : visit.result rules script = .ok () := by
  induction h with
  | start => cases hMem
  | next _ _ hOk ih =>
    rcases List.mem_append.1 hMem with hPast | hLast
    · exact ih hPast
    · rw [List.mem_singleton.1 hLast]
      exact hOk

namespace Script

/-- The visits to the items that are left, up to the first that fails. -/
def visitsFrom (rules : Rules) (script : Script) : List Item → Machine → List Visit
  | [], _ => []
  | item :: items, m =>
    ⟨item, m⟩ ::
      match step rules script item m with
      | .ok () after => visitsFrom rules script items after
      | .error _ _ => []

/-- The visits of a run. A script that is too large is not visited at all. -/
def visits (rules : Rules) (m : Machine) (script : Script) : List Visit :=
  if maxSize < script.length then [] else visitsFrom rules script script.items m.load

theorem visitsFrom_of_ok (h : step rules script item m = .ok () left) :
    visitsFrom rules script (item :: items) m =
      ⟨item, m⟩ :: visitsFrom rules script items left := by
  simp only [visitsFrom, h]

theorem visitsFrom_of_error (h : step rules script item m = .error cause left) :
    visitsFrom rules script (item :: items) m = [⟨item, m⟩] := by
  simp only [visitsFrom, h]

end Script

theorem visited_of_visitsFrom {past front rest : List Visit} {visit : Visit}
    (hVisited : Visited rules script m past now) (hItems : items ⊆ script.items)
    (hVisits : script.visitsFrom rules items now = front ++ visit :: rest) :
    visit.item ∈ script.items ∧ Visited rules script m (past ++ front) visit.before := by
  -- the visits in front of `now` grow by one with every item
  induction items generalizing past now front with
  | nil => simp [Script.visitsFrom] at hVisits
  | cons item items ih =>
    have hMem : item ∈ script.items := hItems (List.mem_cons_self ..)
    have hOthers : items ⊆ script.items := List.subset_of_cons_subset hItems
    cases hStep : step rules script item now with
    | error cause after =>
      rw [Script.visitsFrom_of_error hStep, List.singleton_eq_append_iff] at hVisits
      rcases hVisits with ⟨rfl, hOne⟩ | ⟨-, hNone⟩
      · obtain ⟨rfl, -⟩ := List.cons.inj hOne
        rw [List.append_nil]
        exact ⟨hMem, hVisited⟩
      · cases hNone
    | ok u after =>
      rw [Script.visitsFrom_of_ok hStep] at hVisits
      cases front with
      | nil =>
        obtain ⟨rfl, -⟩ := List.cons.inj hVisits
        rw [List.append_nil]
        exact ⟨hMem, hVisited⟩
      | cons first front =>
        obtain ⟨rfl, hRest⟩ := List.cons.inj hVisits
        have hNext := hVisited.append_singleton hMem hStep
        rw [List.append_cons]
        exact ih hNext hOthers hRest

/-- **In front of every visit of a run, the others have passed.** -/
theorem visited_of_visits {front rest : List Visit} {visit : Visit}
    (hVisits : script.visits rules m = front ++ visit :: rest) :
    visit.item ∈ script.items ∧ Visited rules script m.load front visit.before := by
  unfold Script.visits at hVisits
  split at hVisits
  · simp at hVisits
  · exact visited_of_visitsFrom .start (List.Subset.refl _) hVisits

-- ---------------------------------------------------------------------------
-- The report of a run
-- ---------------------------------------------------------------------------

/-- How a run ends, told by its visits: all passed, or the last one failed. -/
inductive VisitsEnding (rules : Rules) (script : Script) (m : Machine) (visits : List Visit)
    (report : Report) : Prop
  | passed (hVisited : Visited rules script m visits report.machine)
      (hResult : ∀ cause, report.result = .error cause →
        cause = .scriptSize ∨ cause = .unbalancedConditional)
  | failed (past : List Visit) (visit : Visit) (cause : ScriptError)
      (hVisits : visits = past ++ [visit]) (hMem : visit.item ∈ script.items)
      (hVisited : Visited rules script m past visit.before)
      (hFails : visit.result rules script = .error cause)
      (hMachine : report.machine = visit.after rules script)
      (hResult : report.result = .error cause)

theorem runItems_visits {past : List Visit} (steps peak : Nat)
    (hVisited : Visited rules script m past now) (hItems : items ⊆ script.items) :
    let report := script.runItems rules items now steps peak
    let visits := script.visitsFrom rules items now
    report.steps = steps + visits.length ∧ visits.map Visit.item <+: items ∧
      VisitsEnding rules script m (past ++ visits) report := by
  induction items generalizing past now steps peak with
  | nil =>
    refine ⟨rfl, List.prefix_rfl, .passed ?_ ?_⟩
    · rw [Script.visitsFrom, List.append_nil]
      exact hVisited
    · intro cause hResult
      rw [Script.runItems] at hResult
      split at hResult
      · cases hResult
      · exact .inr (Except.error.inj hResult).symm
  | cons item items ih =>
    have hMem : item ∈ script.items := hItems (List.mem_cons_self ..)
    have hOthers : items ⊆ script.items := List.subset_of_cons_subset hItems
    dsimp only
    cases hStep : step rules script item now with
    | error cause after =>
      let last : Visit := ⟨item, now⟩
      have hFails : last.result rules script = .error cause := answer_of_error hStep
      have hAfter : last.after rules script = after := leaves_of_error hStep
      rw [Script.visitsFrom_of_error hStep, runItems_of_error hStep]
      refine ⟨rfl, List.prefix_append [item] items, ?_⟩
      exact .failed past last cause rfl hMem hVisited hFails hAfter.symm rfl
    | ok u after =>
      have hNext := hVisited.append_singleton hMem hStep
      obtain ⟨hSteps, hFront, hEnding⟩ := ih (steps + 1) (max peak after.depth) hNext hOthers
      rw [Script.visitsFrom_of_ok hStep, runItems_of_ok hStep]
      refine ⟨?_, ?_, ?_⟩
      · rw [hSteps, List.length_cons]
        omega
      · rw [List.map_cons, List.prefix_cons_inj]
        exact hFront
      · rw [List.append_cons]
        exact hEnding

/-- **The report of a run, read off its visits.** The visits go over the items in order,
one for each step that is reported. -/
theorem run_visits (rules : Rules) (m : Machine) (script : Script) :
    let report := script.run rules m
    let visits := script.visits rules m
    visits.length = report.steps ∧ visits.map Visit.item = script.items.take report.steps ∧
      VisitsEnding rules script m.load visits report := by
  dsimp only
  unfold Script.run Script.visits
  by_cases hSize : Script.maxSize < script.length
  · rw [if_pos hSize, if_pos hSize]
    refine ⟨rfl, rfl, .passed .start ?_⟩
    intro cause hResult
    exact .inl (Except.error.inj hResult).symm
  · rw [if_neg hSize, if_neg hSize]
    have hStart : Visited rules script m.load [] m.load := .start
    obtain ⟨hSteps, hFront, hEnding⟩ := runItems_visits 0 0 hStart (List.Subset.refl script.items)
    rw [Nat.zero_add] at hSteps
    have hTake := List.prefix_iff_eq_take.1 hFront
    rw [List.length_map, ← hSteps] at hTake
    exact ⟨hSteps.symm, hTake, hEnding⟩

/-- A run fails for what one of its visits fails for, but for a script that is too large
and for conditionals that are left open in the end. -/
theorem run_result_eq_error_iff (rules : Rules) (m : Machine) (script : Script)
    (hSize : cause ≠ .scriptSize) (hOpen : cause ≠ .unbalancedConditional) :
    (script.run rules m).result = .error cause ↔
      ∃ visit ∈ script.visits rules m, visit.result rules script = .error cause := by
  obtain ⟨-, -, hEnding⟩ := run_visits rules m script
  cases hEnding with
  | passed hVisited hResult =>
    constructor
    · intro h
      rcases hResult cause h with rfl | rfl
      · exact absurd rfl hSize
      · exact absurd rfl hOpen
    · rintro ⟨visit, hMem, hFails⟩
      rw [hVisited.result_eq_ok hMem] at hFails
      cases hFails
  | failed past last cause' hVisits _ hVisited hFails _ hResult =>
    rw [hVisits, hResult]
    constructor
    · intro h
      have hLast : last ∈ past ++ [last] :=
        List.mem_append_right past (List.mem_singleton_self last)
      refine ⟨last, hLast, ?_⟩
      rw [hFails, Except.error.inj h]
    · rintro ⟨visit, hMem, hVisit⟩
      rcases List.mem_append.1 hMem with hPast | hLast
      · rw [hVisited.result_eq_ok hPast] at hVisit
        cases hVisit
      · rw [List.mem_singleton.1 hLast, hFails] at hVisit
        rw [Except.error.inj hVisit]

end LegacyScript
