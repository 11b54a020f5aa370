import LegacyScript.Proofs.Machine.Isolation
import LegacyScript.Proofs.Script.Tiling

/-!
# What is logged

A run that is stopped by an item logs one line, which says at which offset and with which
opcode the item begins, and why it failed. The offset is that of the iterator before it reads
the item. Two more views of the script have to agree with it: the number of items that were
read, and the offsets at which the iterator with offsets finds instructions. `Blames` bundles
what makes the line right.

A run that no item stops logs nothing. A verification adds one line to those of its runs, with
another severity, if it fails for whatever cause.

## Results

* `position_behind`    — where an iterator stands behind some of the items.
* `Stopped.blames`     — the line of a run that is stopped is right.
* `level_of_mem_log`   — runs log at one level.
* `verifyScripts_log`  — what a verification adds.
* `failures_located`   — all of this together.
-/

namespace LegacyScript

/-- A report blames an item, and rightly so: the item with the number of steps is the first
one that fails, and what is logged is where it begins in the script and why it fails. -/
structure Report.Blames (report : Report) (rules : Rules) (script : Script) (m : Machine)
    (item : Item) (cause : ScriptError) : Prop where
  result_eq : report.result = .error cause
  steps_pos : 0 < report.steps
  /-- Steps are counted from one, the failing one included. -/
  item_eq : script.items[report.steps - 1]? = some item
  /-- The items in front of it run, and it fails on what they leave. -/
  fails : ∃ before,
    stepAll rules script (script.items.take (report.steps - 1)) m = .ok () before ∧
      step rules script item before = .error cause report.machine
  /-- It begins where the items in front of it end. -/
  start_eq : item.start = ((script.items.take (report.steps - 1)).flatMap Item.raw).length
  start_lt : item.start < script.length
  opcode_eq : script[item.start]? = some item.opcode
  /-- An iterator that has read the items in front of it stands there. -/
  position_eq : ((Cursor.start script).calls Cursor.next (report.steps - 1)).getLast?.elim 0
    Prod.snd = item.start
  /-- The iterator with offsets answers with it, and with its error if it is no instruction. -/
  indexed_eq : ((Cursor.start script).calls Cursor.nextIndexed report.steps)[report.steps - 1]? =
    some (some item.indexed, item.stop)
  log_eq : report.log = [.itemFailed item.opcode item.start cause]
  message_eq : ∀ line ∈ report.log, line.level = .trace ∧
    line.message = "opcode 0x" ++ String.ofList (Text.Hex.ofByte item.opcode) ++ " at byte "
      ++ toString item.start ++ " failed: " ++ cause.message

variable {rules : Rules} {script unlocking locking : Script} {m : Machine}

-- ---------------------------------------------------------------------------
-- Offsets
-- ---------------------------------------------------------------------------

/-- An iterator that has read some of the items stands where their bytes end. -/
theorem position_behind (script : Script) (n : Nat) :
    ((Cursor.start script).calls Cursor.next n).getLast?.elim 0 Prod.snd =
      ((script.items.take n).flatMap Item.raw).length := by
  cases n with
  | zero => rfl
  | succ n =>
    rw [Cursor.calls_next, List.range_succ, List.map_append, List.map_singleton,
      List.getLast?_concat]
    exact Nat.zero_add _

/-- An iterator with offsets answers with the items in order, each with the offset at which it
begins. -/
theorem getElem?_calls_nextIndexed {i : Nat} {item : Item} (h : script.items[i]? = some item) :
    ((Cursor.start script).calls Cursor.nextIndexed (i + 1))[i]? =
      some (some item.indexed, item.stop) := by
  have hFront : script.items.take (i + 1) = script.items.take i ++ [item] := by
    rw [List.take_add_one, h]
    rfl
  have hStop : (Cursor.start script).position +
      ((script.items.take (i + 1)).flatMap Item.raw).length = item.stop := by
    rw [Script.calls_position, hFront, List.getLast?_concat]
    rfl
  rw [Cursor.calls_nextIndexed, Cursor.calls_next, List.map_map, List.getElem?_map,
    List.getElem?_range (Nat.lt_succ_self i), ← hStop]
  have hIndexed : script.items[i]?.map Item.indexed = some item.indexed := by
    rw [h]
    rfl
  rw [← hIndexed]
  rfl

-- ---------------------------------------------------------------------------
-- Runs
-- ---------------------------------------------------------------------------

/-- **The line of a run that is stopped is right** about the item that stopped it. -/
theorem Stopped.blames {front rest : List Item} {item : Item} {before after : Machine}
    {cause : ScriptError} {report : Report}
    (h : Stopped rules script m script.items front item rest before after cause report) :
    report.Blames rules script m item cause := by
  have hCount : report.steps - 1 = front.length := by
    rw [h.steps_eq]
    rfl
  have hTake : script.items.take front.length = front := by
    rw [h.items_eq]
    exact List.take_left
  have hItem : script.items[front.length]? = some item := by
    rw [h.items_eq, List.getElem?_append_right (Nat.le_refl _), Nat.sub_self]
    rfl
  obtain ⟨-, -, hStart, -, -⟩ := Script.eq_append_of_items h.items_eq
  obtain ⟨hOpcode, -, -⟩ := Script.reads_of_mem_items h.mem_items
  constructor
  case result_eq => exact h.result_eq
  case steps_pos =>
    rw [h.steps_eq]
    exact Nat.succ_pos _
  case item_eq =>
    rw [hCount]
    exact hItem
  case fails =>
    rw [hCount, hTake, h.machine_eq]
    exact ⟨before, reaches_iff_stepAll.1 h.reached, h.fails⟩
  case start_eq =>
    rw [hCount, hTake]
    exact hStart
  case start_lt => exact (List.getElem?_eq_some_iff.1 hOpcode).1
  case opcode_eq => exact hOpcode
  case position_eq =>
    rw [hCount, position_behind, hTake]
    exact hStart.symm
  case indexed_eq =>
    rw [h.steps_eq]
    exact getElem?_calls_nextIndexed hItem
  case log_eq => exact h.log_eq
  case message_eq =>
    intro line hLine
    rw [h.log_eq] at hLine
    rw [List.mem_singleton.1 hLine]
    exact ⟨rfl, rfl⟩

/-- A run that succeeds logs nothing. -/
theorem log_of_ok (h : (script.run rules m).result = .ok ()) : (script.run rules m).log = [] := by
  obtain ⟨-, after, hCompleted, -⟩ := run_success h
  exact hCompleted.log_eq

/-- Runs log at one level. -/
theorem level_of_mem_log {line : LogLine} (h : line ∈ (script.run rules m).log) :
    line.level = .trace := by
  cases run_ending rules m script with
  | tooLarge _ hReport =>
    rw [hReport] at h
    rw [List.mem_singleton.1 h]
    rfl
  | completed after _ hCompleted =>
    rw [hCompleted.log_eq] at h
    cases h
  | stopped front item rest before after cause hStopped =>
    rw [hStopped.log_eq] at h
    rw [List.mem_singleton.1 h]
    rfl

-- ---------------------------------------------------------------------------
-- Verifications
-- ---------------------------------------------------------------------------

/-- What the runs of a verification log. The locking script is run only behind an unlocking
script that succeeds. -/
def runsLog (rules : Rules) (unlocking locking : Script) : List LogLine :=
  let first := unlocking.run rules (Machine.ofStack [])
  match first.result with
  | .error _ => first.log
  | .ok () => first.log ++ (locking.run rules first.machine).log

theorem level_of_mem_runsLog {line : LogLine} (h : line ∈ runsLog rules unlocking locking) :
    line.level = .trace := by
  unfold runsLog at h
  dsimp only at h
  split at h
  · exact level_of_mem_log h
  · rcases List.mem_append.1 h with h | h
    · exact level_of_mem_log h
    · exact level_of_mem_log h

/-- What is logged on account of a locking script, as its verdict has it. -/
theorem verdictLog_eq {report : Report} (hQuiet : report.result = .ok () → report.log = []) :
    ∃ added, report.verdictLog = report.log ++ added ∧
      match report.verdict with
      | .ok () => added = []
      | .error _ => ∃ line : LogLine, added = [line] ∧ line.level = .debug := by
  unfold Report.verdictLog Report.verdict
  cases hResult : report.result with
  | error cause => exact ⟨_, rfl, _, rfl, rfl⟩
  | ok u =>
    rw [hQuiet hResult]
    by_cases hTrue : report.machine.stack.isTrue = true
    · simp only [if_pos hTrue]
      exact ⟨[], rfl, rfl⟩
    · simp only [if_neg hTrue]
      exact ⟨_, rfl, _, rfl, rfl⟩

/-- **What a verification adds** to the lines of its runs: nothing if it succeeds, and one line
of another level if it fails. -/
theorem verifyScripts_log (rules : Rules) (unlocking locking : Script) :
    let verification := verifyScripts rules unlocking locking
    ∃ added, verification.log = runsLog rules unlocking locking ++ added ∧
      match verification.result with
      | .ok () => added = []
      | .error _ => ∃ line : LogLine, added = [line] ∧ line.level = .debug := by
  intro verification
  cases hFirst : (unlocking.run rules (Machine.ofStack [])).result with
  | error cause =>
    have hRuns : runsLog rules unlocking locking =
        (unlocking.run rules (Machine.ofStack [])).log := by
      simp only [runsLog, hFirst]
    have hVerification : verification = _ := verifyScripts_of_error hFirst
    rw [hVerification, hRuns]
    exact ⟨_, rfl, _, rfl, rfl⟩
  | ok u =>
    have hRuns : runsLog rules unlocking locking =
        (locking.run rules (unlocking.run rules (Machine.ofStack [])).machine).log := by
      simp only [runsLog, hFirst, log_of_ok hFirst, List.nil_append]
    have hVerification : verification = _ := verifyScripts_of_ok hFirst rfl
    rw [hVerification, hRuns]
    exact verdictLog_eq log_of_ok

-- ---------------------------------------------------------------------------
-- Failures
-- ---------------------------------------------------------------------------

/-- **The log locates failures.** In a script that is not too large to be run, the items run in
sequence up to the first that fails. If one fails, the report blames it: one line is logged, with
the offset in the script at which the item begins, the opcode that is there, and the cause that
is returned. If none fails, nothing is logged and all items were counted, whether or not a
conditional is left open. A verification adds one line if it fails, and none if it succeeds; its
line is told from those of the runs by the level. -/
theorem failures_located (rules : Rules) :
    (∀ (m : Machine) (script : Script), script.length ≤ Script.maxSize →
      let report := script.run rules m
      match stepAll rules script script.items m.load with
      | .error cause after =>
        report.machine = after ∧ ∃ item, report.Blames rules script m.load item cause
      | .ok () after =>
        report.machine = after ∧ report.steps = script.items.length ∧ report.log = [] ∧
          report.result =
            if after.branches.isEmpty then .ok () else .error .unbalancedConditional) ∧
    ∀ unlocking locking : Script,
      let verification := verifyScripts rules unlocking locking
      ∃ added, verification.log = runsLog rules unlocking locking ++ added ∧
        (∀ line ∈ runsLog rules unlocking locking, line.level = .trace) ∧
        match verification.result with
        | .ok () => added = []
        | .error _ => ∃ line : LogLine, added = [line] ∧ line.level = .debug := by
  constructor
  · intro m script hSize report
    cases run_ending rules m script with
    | tooLarge hLarge _ => exact absurd hLarge (Nat.not_lt.2 hSize)
    | completed after _ hCompleted =>
      rw [hCompleted.stepAll_eq]
      exact ⟨hCompleted.machine_eq, hCompleted.steps_eq, hCompleted.log_eq, hCompleted.result_eq⟩
    | stopped front item rest before after cause hStopped =>
      rw [hStopped.stepAll_eq]
      exact ⟨hStopped.machine_eq, item, hStopped.blames⟩
  · intro unlocking locking verification
    obtain ⟨added, hLog, hAdded⟩ := verifyScripts_log rules unlocking locking
    exact ⟨added, hLog, fun line hLine => level_of_mem_runsLog hLine, hAdded⟩

/-- Behind a branch and a push of two bytes comes a push that is cut off: the fourth item is to
blame, which begins at the sixth byte. -/
theorem failures_located_cutOff :
    let rules : Rules := ⟨{ checkSig := fun _ _ _ => true }, Flags.none⟩
    let script : Script := [0x51, 0x63, 0x02, 0x07, 0x07, 0x4c, 0x05, 0x07]
    let start : Machine := Machine.ofStack []
    let report := script.run rules start
    script.length ≤ Script.maxSize ∧ report.log = [.itemFailed 0x4c 5 .malformedPush] ∧
      report.steps = 4 ∧ ∃ item, report.Blames rules script start item .malformedPush ∧
        item.start = 5 ∧ script[5]? = some 0x4c := by
  intro rules script start report
  have hSize : script.length ≤ Script.maxSize := by decide
  have hResult : report.result = .error .malformedPush := by decide +kernel
  have hLog : report.log = [.itemFailed 0x4c 5 .malformedPush] := by decide +kernel
  have hLocated := (failures_located rules).1 start script hSize
  dsimp only at hLocated
  refine ⟨hSize, hLog, by decide +kernel, ?_⟩
  split at hLocated
  · next cause after _ =>
    obtain ⟨-, item, hBlames⟩ := hLocated
    obtain rfl : .malformedPush = cause := Except.error.inj (hResult.symm.trans hBlames.result_eq)
    obtain ⟨hOpcode, hStart, -⟩ :=
      LogLine.itemFailed.inj (List.singleton_inj.1 (hLog.symm.trans hBlames.log_eq))
    have hByte := hBlames.opcode_eq
    rw [← hStart, ← hOpcode] at hByte
    exact ⟨item, hBlames, hStart.symm, hByte⟩
  · -- the items do not all run, since the result would be another one
    obtain ⟨-, -, hQuiet, -⟩ := hLocated
    cases hLog.symm.trans hQuiet

end LegacyScript
