import LegacyScript.Proofs.Machine.Isolation
import LegacyScript.Proofs.Number.Codec
import LegacyScript.Proofs.Script.Items

/-!
# Scripts that only push

Whether a script holds nothing but pushes is seen without running it, and what it pushes
can be read off its items. Every opcode that is allowed in such a script is known, takes
nothing from the budget of operations, opens no conditional and puts just one element on
the stack, so that a run is a list of elements put one on the other. It fails only if the
script is too large, an element is, or the stack gets too deep.

## Results

* `runItem_eq_push`        — an item that pushes puts one element on the stack.
* `Stacked.step`           — and so does one more, behind any front of such items.
* `run_pushOnly`           — when a script that only pushes succeeds, and what it leaves.
* `pushOnly_exact`         — the same, with the spend that such a script unlocks.
-/

namespace LegacyScript

open MachineM

-- ---------------------------------------------------------------------------
-- What is pushed
-- ---------------------------------------------------------------------------

/-- The element that an item pushes. It counts only for items that push. -/
def Item.pushed (item : Item) : Bytes :=
  match item.content with
  | .ok (.push data) => data
  -- OP_1NEGATE, and the opcodes of the numbers from one to sixteen
  | .ok (.op code) => if code = 0x4f then [0x81] else [code - 0x50]
  | .error _ => []

/-- The elements that a script pushes, in order. -/
def Script.pushed (script : Script) : List Bytes :=
  script.items.map Item.pushed

/-- An opcode of a number pushes it, at no cost. -/
theorem Opcode.operation?_of_number (code : Opcode) :
    0x4e < code → code ≤ lastPush → code ≠ reserved →
      code.operation? = some (.constant (code.toNat - 0x50)) ∧
      Number.encode (code.toNat - 0x50) = (if code = 0x4f then [0x81] else [code - 0x50]) ∧
      code.isCounted = false :=
  Number.byteCases code (by decide +kernel)

variable {rules : Rules} {script : Script} {item : Item} {m m₁ m₂ : Machine}

/-- **An item that pushes puts one element on the stack**, if that is not too large. Its size
matters in every branch. -/
theorem runItem_eq_push (hMem : item ∈ script.items) (hPush : item.isPush = true) :
    runItem rules script item =
      if Script.maxElementSize < item.pushed.length then throw .pushSize
      else whenExecuting (onStack (StackM.push item.pushed)) := by
  cases hContent : item.content with
  | error e => simp [Item.isPush, hContent] at hPush
  | ok instruction =>
    cases instruction with
    | push data =>
      have hPushed : item.pushed = data := by simp only [Item.pushed, hContent]
      rw [runItem_of_push hContent, hPushed]
    | op code =>
      have hPushed : item.pushed = if code = 0x4f then [0x81] else [code - 0x50] := by
        simp only [Item.pushed, hContent]
      have hRange : code ≤ Opcode.lastPush ∧ code ≠ Opcode.reserved := by
        simpa [Item.isPush, hContent] using hPush
      obtain ⟨hOperation, hEncode, hFree⟩ :=
        code.operation?_of_number (Script.lt_of_op hMem hContent) hRange.1 hRange.2
      have hLength : item.pushed.length = 1 := by
        rw [hPushed]
        split <;> rfl
      have hSmall : ¬ Script.maxElementSize < item.pushed.length := by
        rw [hLength]
        decide
      have hCount : countOpcode code = pure () := by rw [countOpcode, hFree]; rfl
      rw [if_neg hSmall, hPushed, ← hEncode, runItem_of_operation hContent hOperation, hCount,
        pure_bind]
      rfl

theorem runItem_of_isPush (hMem : item ∈ script.items) (hPush : item.isPush = true)
    (hExecuting : m.executing = true) :
    runItem rules script item m =
      if Script.maxElementSize < item.pushed.length then .error .pushSize m
      else .ok () { m with stack := item.pushed :: m.stack } := by
  rw [runItem_eq_push hMem hPush]
  split
  · rfl
  · exact whenExecuting_of_executing hExecuting

theorem Machine.depth_push (m : Machine) (value : Bytes) :
    { m with stack := value :: m.stack : Machine }.depth = m.depth + 1 := by
  show (value :: m.stack).length + m.alt.length = m.stack.length + m.alt.length + 1
  rw [List.length_cons]
  omega

/-- What is known of an item that pushes and passes. -/
theorem step_ok_of_isPush (hMem : item ∈ script.items) (hPush : item.isPush = true)
    (hExecuting : m.executing = true) (h : step rules script item m = .ok () m₁) :
    m₁ = { m with stack := item.pushed :: m.stack } ∧
      item.pushed.length ≤ Script.maxElementSize ∧ m.depth + 1 ≤ Machine.maxDepth := by
  obtain ⟨hRun, hDepth⟩ := step_eq_ok_iff.1 h
  rw [runItem_of_isPush hMem hPush hExecuting] at hRun
  by_cases hLarge : Script.maxElementSize < item.pushed.length
  · rw [if_pos hLarge] at hRun
    cases hRun
  · rw [if_neg hLarge] at hRun
    obtain rfl := (EStateM.Result.ok.inj hRun).2
    rw [Machine.depth_push] at hDepth
    exact ⟨rfl, Nat.not_lt.1 hLarge, hDepth⟩

/-- Why an item that pushes stops a run. -/
theorem step_error_of_isPush {cause : ScriptError} (hMem : item ∈ script.items)
    (hPush : item.isPush = true) (hExecuting : m.executing = true)
    (h : step rules script item m = .error cause m₁) :
    m₁.calls = m.calls ∧
      (cause = .pushSize ∧ Script.maxElementSize < item.pushed.length ∨
        cause = .stackSize ∧ Machine.maxDepth < m.depth + 1) := by
  have hStep := step_eq_error_iff.1 h
  rw [runItem_of_isPush hMem hPush hExecuting] at hStep
  by_cases hLarge : Script.maxElementSize < item.pushed.length
  · rw [if_pos hLarge] at hStep
    rcases hStep with hRun | ⟨hRun, -⟩
    · obtain ⟨rfl, rfl⟩ := EStateM.Result.error.inj hRun
      exact ⟨rfl, .inl ⟨rfl, hLarge⟩⟩
    · cases hRun
  · rw [if_neg hLarge] at hStep
    rcases hStep with hRun | ⟨hRun, hDepth, hCause⟩
    · cases hRun
    · obtain rfl := (EStateM.Result.ok.inj hRun).2
      rw [Machine.depth_push] at hDepth
      exact ⟨rfl, .inr ⟨hCause, hDepth⟩⟩

-- ---------------------------------------------------------------------------
-- Runs
-- ---------------------------------------------------------------------------

/-- Behind items that push, the machine has their elements on its stack, and nothing else has
become of it. None of them is too large, and they are not too many. -/
structure Stacked (m : Machine) (front : List Item) (after : Machine) : Prop where
  machine_eq : after = { m with stack := (front.map Item.pushed).reverse ++ m.stack }
  small : ∀ item ∈ front, item.pushed.length ≤ Script.maxElementSize
  fits : front ≠ [] → m.depth + front.length ≤ Machine.maxDepth

theorem Stacked.depth_eq {front : List Item} (h : Stacked m front m₁) :
    m₁.depth = m.depth + front.length := by
  rw [h.machine_eq]
  show ((front.map Item.pushed).reverse ++ m.stack).length + m.alt.length =
    m.stack.length + m.alt.length + front.length
  rw [List.length_append, List.length_reverse, List.length_map]
  omega

theorem Stacked.executing {front : List Item} (h : Stacked m front m₁)
    (hBranches : m.branches = []) : m₁.executing = true := by
  rw [h.machine_eq]
  show m.branches.all id = true
  rw [hBranches]
  rfl

/-- **One more push puts one more element on the stack.** -/
theorem Stacked.step {front : List Item} (h : Stacked m front m₁) (hBranches : m.branches = [])
    (hMem : item ∈ script.items) (hPush : item.isPush = true)
    (hPass : step rules script item m₁ = .ok () m₂) : Stacked m (front ++ [item]) m₂ := by
  obtain ⟨hAfter, hSmall, hRoom⟩ :=
    step_ok_of_isPush hMem hPush (h.executing hBranches) hPass
  refine ⟨?_, ?_, ?_⟩
  · rw [hAfter, h.machine_eq, List.map_append, List.reverse_append]
    rfl
  · intro other hOther
    rcases List.mem_append.1 hOther with hOld | hNew
    · exact h.small other hOld
    · rw [List.mem_singleton.1 hNew]
      exact hSmall
  · intro _
    rw [h.depth_eq] at hRoom
    rw [List.length_append, List.length_singleton]
    omega

theorem Reaches.stacked {front : List Item} (h : Reaches rules script m front m₁)
    (hMem : ∀ item ∈ front, item ∈ script.items) (hPush : ∀ item ∈ front, item.isPush = true)
    (hBranches : m.branches = []) : Stacked m front m₁ := by
  induction h with
  | start => exact ⟨rfl, by simp, by simp⟩
  | @step front m₁ m₂ item _ hPass ih =>
    have hFront : Stacked m front m₁ := ih
      (fun other hOther => hMem other (List.mem_append_left _ hOther))
      (fun other hOther => hPush other (List.mem_append_left _ hOther))
    have hLast : item ∈ front ++ [item] := List.mem_append_right _ (List.mem_singleton_self item)
    exact hFront.step hBranches (hMem item hLast) (hPush item hLast) hPass

/-- The elements that a script pushes are within all limits, above a stack of the given
height. -/
structure Script.Pushable (script : Script) (height : Nat) : Prop where
  size : script.length ≤ 10000
  small : ∀ value ∈ script.pushed, value.length ≤ 520
  fits : script.items ≠ [] → height + script.items.length ≤ 1000

/-- A front of the items of a script that only pushes, as a run comes through it. -/
theorem Stacked.of_reaches {front rest : List Item} (hPush : script.isPushOnly = true)
    (hItems : script.items = front ++ rest) (h : Reaches rules script m.load front m₁) :
    Stacked m.load front m₁ := by
  have hMem : ∀ item ∈ front, item ∈ script.items := by
    intro item hItem
    rw [hItems]
    exact List.mem_append_left rest hItem
  exact h.stacked hMem (fun item hItem => List.all_eq_true.1 hPush item (hMem item hItem)) rfl

/-- **When a script that only pushes succeeds**, and what it leaves. -/
theorem run_pushOnly (hPush : script.isPushOnly = true) (rules : Rules) (m : Machine) :
    let report := script.run rules m
    (script.Pushable m.stack.length ∧ report.result = .ok () ∧
      report.machine = { m.load with stack := script.pushed.reverse ++ m.stack }) ∨
    (¬ script.Pushable m.stack.length ∧ report.machine.calls = [] ∧
      ∃ cause ∈ [.scriptSize, .pushSize, .stackSize], report.result = .error cause) := by
  intro report
  cases run_ending rules m script with
  | tooLarge hSize hReport =>
    right
    refine ⟨fun hPushable => Nat.not_le.2 hSize hPushable.size, ?_, .scriptSize, by decide, ?_⟩
    · show (script.run rules m).machine.calls = []
      rw [hReport]
      rfl
    · show (script.run rules m).result = .error .scriptSize
      rw [hReport]
  | completed after hSize hCompleted =>
    left
    have hStacked : Stacked m.load script.items after :=
      .of_reaches hPush (List.append_nil _).symm hCompleted.reached
    refine ⟨⟨hSize, ?_, hStacked.fits⟩, ?_, ?_⟩
    · intro value hValue
      obtain ⟨item, hItem, rfl⟩ := List.mem_map.1 hValue
      exact hStacked.small item hItem
    · show (script.run rules m).result = .ok ()
      rw [hCompleted.result_eq, hStacked.machine_eq]
      rfl
    · show (script.run rules m).machine = _
      rw [hCompleted.machine_eq]
      exact hStacked.machine_eq
  | stopped front item rest before after cause hStopped =>
    right
    have hStacked : Stacked m.load front before :=
      .of_reaches hPush hStopped.items_eq hStopped.reached
    have hMem : item ∈ script.items := hStopped.mem_items
    have hPushed : item.pushed ∈ script.pushed := List.mem_map_of_mem hMem
    obtain ⟨hCalls, hCause⟩ := step_error_of_isPush hMem (List.all_eq_true.1 hPush item hMem)
      (hStacked.executing rfl) hStopped.fails
    have hMachine : report.machine = after := hStopped.machine_eq
    have hResult : report.result = .error cause := hStopped.result_eq
    refine ⟨?_, ?_, cause, ?_, hResult⟩
    · intro hPushable
      rcases hCause with ⟨-, hLarge⟩ | ⟨-, hDeep⟩
      · exact Nat.not_le.2 hLarge (hPushable.small item.pushed hPushed)
      · have hFits := hPushable.fits (List.ne_nil_of_mem hMem)
        have hLength := congrArg List.length hStopped.items_eq
        have hHeight : m.load.depth = m.stack.length := rfl
        have hLimit : Machine.maxDepth = 1000 := rfl
        rw [List.length_append, List.length_cons] at hLength
        rw [hStacked.depth_eq, hHeight, hLimit] at hDeep
        omega
    · rw [hMachine, hCalls, hStacked.machine_eq]
      rfl
    · rcases hCause with ⟨rfl, -⟩ | ⟨rfl, -⟩
      · decide
      · decide

/-- **Scripts that only push are exact.** A script that only pushes asks the checker nothing,
and fails only for its size, the size of an element or the depth of the stack: just when one
of these is over its limit. Otherwise it leaves what it found and on top of that all that it
pushes, in order. So the spend that it unlocks is as good as a run of the locking script on
the elements that it pushes, with the top of the stack put to the test at the end. -/
theorem pushOnly_exact (rules : Rules) (script : Script) (hPush : script.isPushOnly = true) :
    (∀ m : Machine,
      let report := script.run rules m
      report.machine.calls = [] ∧
      (∀ cause, report.result = .error cause → cause ∈ [.scriptSize, .pushSize, .stackSize]) ∧
      (report.result = .ok () ↔ script.Pushable m.stack.length) ∧
      (report.result = .ok () → report.machine.stack.items = m.stack.items ++ script.pushed)) ∧
    ∀ locking : Script,
      let verification := verifyScripts rules script locking
      let second := locking.run rules (Machine.ofStack (Stack.ofItems script.pushed))
      (script.Pushable 0 →
        verification = ⟨second.verdict, second.machine.calls, second.verdictLog⟩) ∧
      (¬ script.Pushable 0 → verification.calls = [] ∧
        ∃ cause ∈ [.scriptSize, .pushSize, .stackSize],
          verification.result = .error (.script cause)) := by
  constructor
  · intro m report
    rcases run_pushOnly hPush rules m with
      ⟨hPushable, hResult, hMachine⟩ | ⟨hNot, hCalls, cause, hCause, hResult⟩
    · have hReport : report.result = .ok () := hResult
      refine ⟨?_, ?_, iff_of_true hResult hPushable, ?_⟩
      · show (script.run rules m).machine.calls = []
        rw [hMachine]
        rfl
      · intro cause hError
        rw [hReport] at hError
        cases hError
      · intro _
        show (script.run rules m).machine.stack.reverse = m.stack.reverse ++ script.pushed
        rw [hMachine]
        show (script.pushed.reverse ++ m.stack).reverse = _
        rw [List.reverse_append, List.reverse_reverse]
    · have hReport : report.result = .error cause := hResult
      refine ⟨hCalls, ?_, iff_of_false ?_ hNot, ?_⟩
      · intro other hOther
        rw [hReport] at hOther
        rw [← Except.error.inj hOther]
        exact hCause
      · rw [hReport]
        nofun
      · intro hOk
        rw [hReport] at hOk
        cases hOk
  · intro locking verification second
    rcases run_pushOnly hPush rules (Machine.ofStack []) with
      ⟨hPushable, hResult, hMachine⟩ | ⟨hNot, hCalls, cause, hCause, hResult⟩
    · refine ⟨fun _ => ?_, fun hNot => absurd hPushable hNot⟩
      have hStack : (Machine.ofStack (Stack.ofItems script.pushed)).stack =
          (script.run rules (Machine.ofStack [])).machine.stack := by
        rw [hMachine]
        exact (List.append_nil _).symm
      have hVerification : verification = _ := verifyScripts_of_ok hResult hStack
      have hCalls : (script.run rules (Machine.ofStack [])).machine.calls = [] := by
        rw [hMachine]
        rfl
      rw [hVerification, hCalls, List.nil_append]
    · refine ⟨fun hPushable => absurd hPushable hNot, fun _ => ?_⟩
      have hVerification : verification = _ := verifyScripts_of_error hResult
      rw [hVerification]
      exact ⟨hCalls, cause, hCause, rfl⟩

/-- Data, a number below zero and one above it, and no data at all unlock what they equal. An
element that is too large by one byte is not pushed at all. -/
theorem pushOnly_exact_unlocking :
    let rules : Rules := ⟨{ checkSig := fun _ _ _ => true }, Flags.none⟩
    let script : Script := [0x02, 0xaa, 0xbb, 0x4f, 0x60, 0x4c, 0x00]
    let large : Script := [0x4d, 0x09, 0x02] ++ List.replicate 521 0x00
    let locking : Script := [0x00, 0x88, 0x60, 0x88, 0x4f, 0x87]
    script.isPushOnly = true ∧
      (script.run rules (Machine.ofStack [[0x07]])).machine.stack.items =
        [[0x07], [0xaa, 0xbb], [0x81], [0x10], []] ∧
      (verifyScripts rules script locking).result = .ok () ∧
      large.isPushOnly = true ∧
      (∃ cause, (verifyScripts rules large locking).result = .error (.script cause)) := by
  intro rules script large locking
  have hPush : script.isPushOnly = true := by decide +kernel
  have hLarge : large.isPushOnly = true := by decide +kernel
  have hPushed : script.pushed = [[0xaa, 0xbb], [0x81], [0x10], []] := by decide +kernel
  obtain ⟨hRuns, hSpends⟩ := pushOnly_exact rules script hPush
  obtain ⟨-, hLargeSpends⟩ := pushOnly_exact rules large hLarge
  have hPushable (height : Nat) (hHeight : height ≤ 996) : script.Pushable height := by
    have hItems : script.items.length = 4 := by decide +kernel
    refine ⟨by decide, ?_, fun _ => ?_⟩
    · rw [hPushed]
      decide
    · rw [hItems]
      omega
  refine ⟨hPush, ?_, ?_, hLarge, ?_⟩
  · obtain ⟨-, -, hOk, hStack⟩ := hRuns (Machine.ofStack [[0x07]])
    rw [hStack (hOk.2 (hPushable 1 (by decide))), hPushed]
    rfl
  · rw [(hSpends locking).1 (hPushable 0 (by decide)), hPushed]
    decide +kernel
  · have hData : large.pushed = [List.replicate 521 0x00] := by decide +kernel
    have hNot : ¬ large.Pushable 0 := by
      intro hPushable
      have hMem : List.replicate 521 0x00 ∈ large.pushed := by
        rw [hData]
        exact List.mem_singleton_self _
      have hSmall := hPushable.small _ hMem
      rw [List.length_replicate] at hSmall
      omega
    obtain ⟨-, cause, -, hResult⟩ := (hLargeSpends locking).2 hNot
    exact ⟨cause, hResult⟩

end LegacyScript
