import LegacyScript.Proofs.Machine.Validity
import LegacyScript.Proofs.Machine.Visits
import LegacyScript.Proofs.Signature.Tests

/-!
# The books of a run

Besides the stacks a machine keeps books: how many operations were counted, where the
script code begins, and what the checker was asked. `Settles` says all that an action
does to them, and when it fails for want of budget.

Most actions do nothing to the books, which is known from `Tame`. The tests of signatures
count their keys before anything else can fail but the count itself, and ask the checker
at the very end. So what a visit costs is known from what it finds (`Visit.cost`), and a
visit that costs too much does not ask at all (`Visit.settled`).

## Results

* `testSignatures_settles`  — the test of several signatures pays for its keys first.
* `Operation.run_settles`   — what operations do to the books.
* `Visit.settled`           — what a visit does to them.
-/

namespace LegacyScript

open MachineM

section Actions

variable {rules : Rules} {script : Script} {m : Machine} {α β : Type} {x : MachineM α}
  {cost start : Nat} {asks : List Call → Prop}

-- ---------------------------------------------------------------------------
-- Settling
-- ---------------------------------------------------------------------------

/-- What an action does to the books of the machine `m`: it costs `cost` operations, the
script code begins at `start` from then on, and `asks` holds of what it asks the checker.
If the budget is not enough, the checker is not asked. -/
structure Settles (cost start : Nat) (asks : List Call → Prop) (m : Machine) (x : MachineM α) :
    Prop where
  overdrawn_iff : answer x m = .error .opCount ↔ Machine.maxOps < m.opCount + cost
  paid : ∀ a left, x m = .ok a left →
    left.opCount = m.opCount + cost ∧ left.codeStart = start
  asked : (leaves x m).calls = m.calls ∨
    m.opCount + cost ≤ Machine.maxOps ∧
      ∃ calls, asks calls ∧ (leaves x m).calls = m.calls ++ calls

namespace Settles

theorem mono {asks' : List Call → Prop} (h : Settles cost start asks m x)
    (hAsks : ∀ calls, asks calls → asks' calls) : Settles cost start asks' m x := by
  refine ⟨h.overdrawn_iff, h.paid, ?_⟩
  rcases h.asked with hSame | ⟨hAfford, calls, hCalls, hMore⟩
  · exact .inl hSame
  · exact .inr ⟨hAfford, calls, hAsks calls hCalls, hMore⟩

theorem of_eq {y : MachineM α} {m' : Machine} (hEq : x m = y m') (hSame : SameBooks m m')
    (h : Settles cost start asks m' y) : Settles cost start asks m x := by
  have hAnswer : answer x m = answer y m' := by rw [answer, hEq, answer]
  have hLeaves : leaves x m = leaves y m' := by rw [leaves, hEq, leaves]
  have hCount := hSame.opCount
  refine ⟨?_, ?_, ?_⟩
  · rw [hAnswer, ← hCount]
    exact h.overdrawn_iff
  · intro a left hOk
    rw [hEq] at hOk
    rw [← hCount]
    exact h.paid a left hOk
  · rw [hLeaves, ← hCount, ← hSame.calls]
    exact h.asked

theorem calls_eq (h : Settles cost start (fun _ => False) m x) :
    (leaves x m).calls = m.calls := by
  rcases h.asked with hSame | ⟨-, calls, hNone, -⟩
  · exact hSame
  · exact hNone.elim

theorem bind_of_fails {f : α → MachineM β} {start' : Nat} {cause : ScriptError} {left : Machine}
    (h : Settles cost start asks m x) (hFails : x m = .error cause left) :
    Settles cost start' asks m (x >>= f) := by
  have hBind : (x >>= f) m = .error cause left := bind_of_error hFails
  refine ⟨?_, ?_, ?_⟩
  · have hOverdrawn := h.overdrawn_iff
    rw [answer_of_error hFails] at hOverdrawn
    rw [answer_of_error hBind, ← hOverdrawn, Except.error.injEq, Except.error.injEq]
  · intro b after hOk
    rw [hBind] at hOk
    cases hOk
  · rw [leaves_of_error hBind, ← leaves_of_error hFails]
    exact h.asked

/-- What is free may be done behind. -/
theorem bind_free {f : α → MachineM β} (h : Settles cost start asks m x)
    (hFree : ∀ a left, left.opCount ≤ Machine.maxOps →
      Settles 0 left.codeStart (fun _ => False) left (f a)) :
    Settles cost start asks m (x >>= f) := by
  cases hFirst : x m with
  | error cause left => exact h.bind_of_fails hFirst
  | ok a left =>
    -- the first line has paid, so that the second begins within the budget
    obtain ⟨hCount, hStart⟩ := h.paid a left hFirst
    have hAfford : m.opCount + cost ≤ Machine.maxOps := by
      rw [← Nat.not_lt, ← h.overdrawn_iff, answer_of_ok hFirst]
      exact nofun
    have hLeft : left.opCount ≤ Machine.maxOps := by omega
    have hRest := hFree a left hLeft
    have hCalls : (leaves (f a) left).calls = left.calls := hRest.calls_eq
    have hLeaves : (leaves (x >>= f) m).calls = (leaves x m).calls := by
      rw [leaves_of_ok hFirst, ← hCalls, leaves, bind_of_ok hFirst, leaves]
    refine ⟨?_, ?_, ?_⟩
    · have hAnswer : answer (x >>= f) m = answer (f a) left := by
        rw [answer, bind_of_ok hFirst, answer]
      have hNever := hRest.overdrawn_iff
      rw [hAnswer, hNever]
      omega
    · intro b after hOk
      rw [bind_of_ok hFirst] at hOk
      obtain ⟨hCount', hStart'⟩ := hRest.paid b after hOk
      exact ⟨by omega, hStart'.trans hStart⟩
    · rw [hLeaves]
      exact h.asked

/-- What is free may be done before, if what comes behind is free, too. -/
theorem free_bind {f : α → MachineM β} (h : Settles 0 m.codeStart (fun _ => False) m x)
    (hRest : ∀ a left, x m = .ok a left → Settles 0 start asks left (f a)) :
    Settles 0 start asks m (x >>= f) := by
  cases hFirst : x m with
  | error cause left => exact (h.mono fun _ => False.elim).bind_of_fails hFirst
  | ok a left =>
    obtain ⟨hCount, hStart⟩ := h.paid a left hFirst
    have hCalls := h.calls_eq
    rw [leaves_of_ok hFirst] at hCalls
    have hSame : SameBooks m left := ⟨hCount, hStart, hCalls⟩
    exact of_eq (bind_of_ok hFirst) hSame (hRest a left hFirst)

/-- Operations are counted before, or it is too much. -/
theorem addOps_bind {count : Nat} {f : Unit → MachineM β}
    (hRest : m.opCount + count ≤ Machine.maxOps →
      Settles cost start asks { m with opCount := m.opCount + count } (f ())) :
    Settles (count + cost) start asks m (addOps count >>= f) := by
  rcases Nat.lt_or_ge Machine.maxOps (m.opCount + count) with hLt | hLe
  · have hFails : (addOps count >>= f) m =
        .error .opCount { m with opCount := m.opCount + count } := bind_of_error (addOps_of_lt hLt)
    refine ⟨?_, ?_, .inl ?_⟩
    · rw [answer_of_error hFails]
      refine ⟨fun _ => by omega, fun _ => rfl⟩
    · intro b after hOk
      rw [hFails] at hOk
      cases hOk
    · rw [leaves_of_error hFails]
  · have h := hRest hLe
    have hEq : (addOps count >>= f) m = f () { m with opCount := m.opCount + count } :=
      bind_of_ok (addOps_of_le hLe)
    have hAnswer : answer (addOps count >>= f) m =
        answer (f ()) { m with opCount := m.opCount + count } := by rw [answer, hEq, answer]
    have hLeaves : leaves (addOps count >>= f) m =
        leaves (f ()) { m with opCount := m.opCount + count } := by rw [leaves, hEq, leaves]
    refine ⟨?_, ?_, ?_⟩
    · rw [hAnswer, h.overdrawn_iff, Nat.add_assoc]
    · intro b after hOk
      rw [hEq] at hOk
      obtain ⟨hCount, hStart⟩ := h.paid b after hOk
      exact ⟨by rw [hCount, Nat.add_assoc], hStart⟩
    · rw [hLeaves, ← Nat.add_assoc]
      exact h.asked

end Settles

theorem settles_of_sameBooks (hOps : m.opCount ≤ Machine.maxOps)
    (hSame : SameBooks m (leaves x m)) (hCause : answer x m ≠ .error .opCount) :
    Settles 0 m.codeStart asks m x := by
  refine ⟨?_, ?_, .inl hSame.calls⟩
  · refine ⟨fun h => absurd h hCause, fun h => by omega⟩
  · intro a left hOk
    rw [leaves_of_ok hOk] at hSame
    exact ⟨hSame.opCount, hSame.codeStart⟩

theorem MachineM.Tame.settles {e : Effects} {Q : α → Prop} (h : Tame script e Q x)
    (hGood : ∀ value, e.good value) (hBooks : ¬e.books) (hCause : .opCount ∉ e.causes)
    (hOps : m.opCount ≤ Machine.maxOps) : Settles 0 m.codeStart asks m x := by
  refine settles_of_sameBooks hOps (h.sameBooks hGood hBooks m) ?_
  intro hFails
  have hEnds := h.ends (Machine.elements_of_forall hGood m)
  cases hEnd : x m with
  | ok a left =>
    rw [answer_of_ok hEnd] at hFails
    cases hFails
  | error cause left =>
    rw [answer_of_error hEnd] at hFails
    obtain rfl := Except.error.inj hFails
    rw [hEnd] at hEnds
    rcases hEnds.1 with hUnderflow | hKnown
    · cases hUnderflow
    · exact hCause hKnown

theorem Settles.whenExecuting {action : MachineM Unit} (hOps : m.opCount ≤ Machine.maxOps)
    (h : m.executing = true → Settles cost start asks m action) :
    Settles (if m.executing then cost else 0) (if m.executing then start else m.codeStart) asks m
      (whenExecuting action) := by
  cases hExecuting : m.executing with
  | true =>
    exact .of_eq (whenExecuting_of_executing hExecuting) (.refl m) (h hExecuting)
  | false =>
    have hSkips : MachineM.whenExecuting action m = .ok () m :=
      whenExecuting_of_not_executing hExecuting
    refine settles_of_sameBooks hOps ?_ ?_
    · rw [leaves_of_ok hSkips]
      exact .refl m
    · rw [answer_of_ok hSkips]
      exact nofun

-- ---------------------------------------------------------------------------
-- Tests
-- ---------------------------------------------------------------------------

/-- How many keys a test counts as operations, if it finds a stack. -/
def Test.keyCount : Test → Stack → Nat
  | .checkMultiSig, s => (s.count? Machine.maxPubkeys).getD 0
  | .equal, _ | .numEqual, _ | .checkSig, _ => 0

/-- What a test asks that finds the machine `m`. -/
def Test.Asks (rules : Rules) (script : Script) (t : Test) (m : Machine) (calls : List Call) :
    Prop :=
  ∃ operands : Operands, Takes t m.stack operands.signatures operands.pubkeys ∧
    calls = (operands.outcome rules script m).calls

theorem Operands.ask_settles (operands : Operands) (hOps : m.opCount ≤ Machine.maxOps) :
    Settles 0 m.codeStart (fun calls => calls = (operands.outcome rules script m).calls) m
      (operands.ask rules script) := by
  have hAsk := operands.ask_eq rules script m
  refine ⟨?_, ?_, .inr ⟨hOps, _, rfl, ?_⟩⟩
  · rw [answer_of_ok hAsk]
    exact ⟨nofun, fun h => by omega⟩
  · intro a left hOk
    rw [hAsk] at hOk
    cases hOk
    exact ⟨rfl, rfl⟩
  · rw [leaves_of_ok hAsk]

/-- To take operands is free, and then they are asked about. -/
theorem takes_settles {take : StackM Operands} {e : Effects}
    (hTame : StackM.Tame e (fun _ => True) take) (hGood : ∀ value, e.good value)
    (hBooks : ¬e.books) (hCause : .opCount ∉ e.causes) (hOps : m.opCount ≤ Machine.maxOps)
    (hTakes : ∀ operands below, take m.stack = .ok operands below →
      asks (operands.outcome rules script m).calls) :
    Settles 0 m.codeStart asks m
      (onStack take >>= fun operands => operands.ask rules script) := by
  have hTake : MachineM.Tame script e (fun _ => True) (onStack take) := .onStack hTame
  refine (hTake.settles hGood hBooks hCause hOps).free_bind ?_
  intro operands left hOk
  cases hStack : take m.stack with
  | error cause below =>
    rw [onStack_of_error hStack] at hOk
    cases hOk
  | ok found below =>
    rw [onStack_of_ok hStack] at hOk
    cases hOk
    let taken : Machine := { m with stack := below }
    have hAsk : Settles 0 m.codeStart
        (fun calls => calls = (operands.outcome rules script taken).calls) taken
        (operands.ask rules script) := operands.ask_settles (m := taken) hOps
    refine hAsk.mono ?_
    rintro calls rfl
    exact hTakes operands below hStack

theorem testSignature_settles (hOps : m.opCount ≤ Machine.maxOps) :
    Settles 0 m.codeStart (Test.checkSig.Asks rules script m) m (testSignature rules script) := by
  rw [testSignature_eq]
  let nothing : Effects := ⟨fun _ => True, [], False⟩
  have hTame : StackM.Tame nothing (fun _ => True) takeOne := takeOne_tame
  refine takes_settles hTame (fun _ => trivial) id (by simp [nothing]) hOps ?_
  intro operands below hTake
  exact ⟨operands, takes_of_takeOne hTake, rfl⟩

/-- **The test of several signatures pays for its keys first.** Only a count that is none
comes before that. -/
theorem testSignatures_settles (hOps : m.opCount ≤ Machine.maxOps) :
    Settles (Test.checkMultiSig.keyCount m.stack) m.codeStart
      (Test.checkMultiSig.Asks rules script m) m (testSignatures rules script) := by
  rw [testSignatures_eq]
  let counting : Effects := ⟨fun _ => True, [.numOverflow, .pubkeyCount, .sigCount], False⟩
  have hCause : .opCount ∉ counting.causes := by simp [counting]
  cases hCount : m.stack.count? Machine.maxPubkeys with
  | none =>
    -- the count is none, and that is the end of it
    have hKeys : Test.checkMultiSig.keyCount m.stack = 0 := by
      rw [Test.keyCount, hCount]
      rfl
    have hTame : MachineM.Tame script counting (fun _ => True)
        (onStack (StackM.popCount Machine.maxPubkeys .pubkeyCount)) :=
      .onStack (StackM.popCount_tame (by simp [counting]) (by simp [counting]))
    rw [hKeys]
    refine (hTame.settles (fun _ => trivial) id hCause hOps).free_bind ?_
    intro keyCount left hOk
    cases hStack : StackM.popCount Machine.maxPubkeys .pubkeyCount m.stack with
    | error cause below =>
      rw [onStack_of_error hStack] at hOk
      cases hOk
    | ok found below =>
      -- a count was taken, but there is none
      rw [StackM.popCount_eq_ok_iff.1 ⟨below, hStack⟩] at hCount
      cases hCount
  | some keyCount =>
    -- the keys are paid for before they are taken
    have hKeys : Test.checkMultiSig.keyCount m.stack = keyCount + 0 := by
      rw [Test.keyCount, hCount]
      rfl
    have hTaken : ∃ below, StackM.popCount Machine.maxPubkeys .pubkeyCount m.stack =
        .ok keyCount below := StackM.popCount_eq_ok_iff.2 hCount
    obtain ⟨below, hStack⟩ := hTaken
    have hSame : SameBooks m { m with stack := below } := ⟨rfl, rfl, rfl⟩
    rw [hKeys]
    refine .of_eq (bind_of_ok (onStack_of_ok hStack)) hSame (.addOps_bind fun hAfford => ?_)
    have hTame : StackM.Tame counting (fun _ => True) (takeMany keyCount) :=
      takeMany_tame (by simp [counting]) (by simp [counting])
    let charged : Machine := { m with stack := below, opCount := m.opCount + keyCount }
    refine takes_settles (m := charged) hTame (fun _ => trivial) id hCause hAfford ?_
    intro operands rest hTake
    exact ⟨operands, (takes_of_takeMany hStack hTake).1, rfl⟩

/-- **What tests do to the books.** -/
theorem Test.run_settles (t : Test) (hOps : m.opCount ≤ Machine.maxOps) :
    Settles (t.keyCount m.stack) m.codeStart (t.Asks rules script m) m (t.run rules script) := by
  let quiet : Effects := ⟨fun _ => True, t.causes, False⟩
  cases t with
  | checkSig => exact testSignature_settles hOps
  | checkMultiSig => exact testSignatures_settles hOps
  | equal =>
    have hTame : MachineM.Tame script quiet (fun _ => True) (Test.equal.run rules script) :=
      Test.run_tame .equal closed_true nofun (List.Subset.refl _)
    exact hTame.settles (fun _ => trivial) id (by simp [quiet, Test.causes]) hOps
  | numEqual =>
    have hTame : MachineM.Tame script quiet (fun _ => True) (Test.numEqual.run rules script) :=
      Test.run_tame .numEqual closed_true nofun (List.Subset.refl _)
    exact hTame.settles (fun _ => trivial) id (by simp [quiet, Test.causes]) hOps

-- ---------------------------------------------------------------------------
-- Operations
-- ---------------------------------------------------------------------------

theorem Test.keyCount_of_not_asksChecker {t : Test} (h : t.asksChecker = false) (s : Stack) :
    t.keyCount s = 0 := by
  cases t with
  | equal | numEqual => rfl
  | checkSig | checkMultiSig => cases h

namespace Operation

/-- How many keys an operation counts as operations, if it finds a stack. -/
def keyCount (operation : Operation) (s : Stack) : Nat :=
  match operation.test? with
  | some t => t.keyCount s
  | none => 0

/-- What an operation that is executed asks, if it finds the machine `m`. -/
def Asks (rules : Rules) (script : Script) (operation : Operation) (m : Machine)
    (calls : List Call) : Prop :=
  ∃ t, operation.test? = some t ∧ t.Asks rules script m calls

/-- Where the script code begins behind an operation that is executed and ends at `stop`. -/
def codeStart (operation : Operation) (stop : Nat) (m : Machine) : Nat :=
  if operation = .codeSeparator then stop else m.codeStart

theorem keyCount_of_not_writesBooks {operation : Operation} (h : operation.writesBooks = false)
    (s : Stack) : operation.keyCount s = 0 := by
  unfold keyCount
  cases hTest : operation.test? with
  | none => rfl
  | some t =>
    have hQuiet : t.asksChecker = false := by simp_all [writesBooks]
    exact t.keyCount_of_not_asksChecker hQuiet s

theorem codeStart_of_not_writesBooks {operation : Operation} {stop : Nat}
    (h : operation.writesBooks = false) : operation.codeStart stop m = m.codeStart := by
  refine if_neg ?_
  rintro rfl
  cases h

theorem opCount_not_mem_causes {operation : Operation} (h : operation.writesBooks = false) :
    .opCount ∉ operation.causes := by
  cases operation with
  | stack op => cases op <;> simp [causes, StackOp.causes]
  | conditional c => cases c <;> simp [causes]
  | test t => cases t <;> simp_all [causes, Test.causes, writesBooks, test?, Test.asksChecker]
  | testVerify t =>
    cases t <;>
      simp_all [causes, Test.causes, Test.cause, writesBooks, test?, Test.asksChecker]
  | _ => simp [causes]

theorem run_settles_of_not_writesBooks {operation : Operation} {stop : Nat}
    (hQuiet : operation.writesBooks = false) (hOps : m.opCount ≤ Machine.maxOps)
    (hConstant : ∀ n, operation = .constant n → n.natAbs < 2 ^ 32) :
    Settles 0 m.codeStart asks m (operation.run rules script stop) := by
  by_cases hDepth : operation = .stack .depth
  · subst hDepth
    have hRun := run_depth rules script stop m
    refine settles_of_sameBooks hOps ?_ ?_
    · rw [leaves_of_ok hRun]
      exact ⟨rfl, rfl, rfl⟩
    · rw [answer_of_ok hRun]
      exact nofun
  · let quiet : Effects := ⟨fun _ => True, operation.causes, False⟩
    have hBooks : operation.writesBooks → quiet.books := by
      rw [hQuiet]
      exact nofun
    have hTame : MachineM.Tame script quiet (fun _ => True) (operation.run rules script stop) :=
      operation.run_tame stop closed_true hBooks (List.Subset.refl _) hConstant hDepth
    exact hTame.settles (fun _ => trivial) id (opCount_not_mem_causes hQuiet) hOps

/-- **What operations do to the books.** -/
theorem run_settles (operation : Operation) (stop : Nat) (hOps : m.opCount ≤ Machine.maxOps)
    (hConstant : ∀ n, operation = .constant n → n.natAbs < 2 ^ 32) :
    Settles (if m.executing then operation.keyCount m.stack else 0)
      (if m.executing then operation.codeStart stop m else m.codeStart)
      (fun calls => m.executing = true ∧ operation.Asks rules script m calls) m
      (operation.run rules script stop) := by
  cases hBooks : operation.writesBooks with
  | false =>
    rw [keyCount_of_not_writesBooks hBooks, codeStart_of_not_writesBooks hBooks, ite_self, ite_self]
    exact run_settles_of_not_writesBooks hBooks hOps hConstant
  | true =>
    cases operation with
    | codeSeparator =>
      refine .whenExecuting hOps fun _ => ⟨?_, ?_, .inl rfl⟩
      · exact ⟨nofun, fun h => absurd h (Nat.not_lt.2 hOps)⟩
      · intro u left hOk
        cases hOk
        exact ⟨rfl, rfl⟩
    | test t =>
      refine .whenExecuting hOps fun hExecuting => ?_
      refine (t.run_settles hOps).mono fun calls hAsks => ?_
      exact ⟨hExecuting, t, rfl, hAsks⟩
    | testVerify t =>
      refine .whenExecuting hOps fun hExecuting => ?_
      have hTest : Settles (t.keyCount m.stack) m.codeStart
          (fun calls => m.executing = true ∧ Asks rules script (.testVerify t) m calls) m
          (t.run rules script) :=
        (t.run_settles hOps).mono fun calls hAsks => ⟨hExecuting, t, rfl, hAsks⟩
      refine hTest.bind_free fun _ left hLeft => ?_
      -- the demand that the test succeed comes behind it
      let demanding : Effects := ⟨fun _ => True, [t.cause], False⟩
      have hTame : MachineM.Tame script demanding (fun _ => True)
          (onStack (StackM.verify t.cause)) := .onStack (StackM.verify_tame (.head _))
      exact hTame.settles (fun _ => trivial) id (by cases t <;> simp [demanding, Test.cause]) hLeft
    | _ => cases hBooks

end Operation

theorem checkDepth_settles (hOps : m.opCount ≤ Machine.maxOps) :
    Settles 0 m.codeStart asks m checkDepth := by
  have hSame : SameBooks m (leaves checkDepth m) := by
    rw [leaves_checkDepth]
    exact .refl m
  refine settles_of_sameBooks hOps hSame ?_
  rcases Nat.lt_or_ge Machine.maxDepth m.depth with hLt | hLe
  · rw [answer_of_error (checkDepth_of_lt hLt)]
    exact nofun
  · rw [answer_of_ok (checkDepth_of_le hLe)]
    exact nofun

end Actions

-- ---------------------------------------------------------------------------
-- Visits
-- ---------------------------------------------------------------------------

namespace Visit

variable {rules : Rules} {script : Script} {visit : Visit}

/-- The keys that are counted as operations: those of an executed test of several
signatures, if their number is one. -/
def keyCount (visit : Visit) : Nat :=
  match visit.test? with
  | some t => t.keyCount visit.before.stack
  | none => 0

/-- What a visit takes from the budget. -/
def cost (visit : Visit) : Nat :=
  (if visit.item.isCounted then 1 else 0) + visit.keyCount

/-- Where the script code begins behind the item, if that passes. -/
def codeStart (visit : Visit) : Nat :=
  if visit.executed? = some .codeSeparator then visit.item.stop else visit.before.codeStart

/-- What a visit asks the checker. -/
def Asks (rules : Rules) (script : Script) (visit : Visit) (calls : List Call) : Prop :=
  ∃ t, visit.test? = some t ∧ t.Asks rules script visit.before calls

/-- What a visit does to the books. -/
structure Settled (rules : Rules) (script : Script) (visit : Visit) : Prop where
  overdrawn_iff : visit.result rules script = .error .opCount ↔
    visit.item.opcode.isKnown = true ∧ Machine.maxOps < visit.before.opCount + visit.cost
  affordable : visit.result rules script = .ok () →
    visit.before.opCount + visit.cost ≤ Machine.maxOps
  opCount_eq : visit.result rules script = .ok () →
    (visit.after rules script).opCount = visit.before.opCount + visit.cost
  codeStart_eq : visit.result rules script = .ok () →
    (visit.after rules script).codeStart = visit.codeStart
  asked : (visit.after rules script).calls = visit.before.calls ∨
    visit.before.opCount + visit.cost ≤ Machine.maxOps ∧
      ∃ calls, visit.Asks rules script calls ∧
        (visit.after rules script).calls = visit.before.calls ++ calls

section Executed

variable {operation : Operation} (h : visit.item.operation? = some operation)
include h

theorem test?_eq : visit.test? = if visit.before.executing then operation.test? else none := by
  unfold test? executed?
  rw [h]
  split <;> rfl

theorem keyCount_eq : visit.keyCount =
    if visit.before.executing then operation.keyCount visit.before.stack else 0 := by
  rw [keyCount, test?_eq h]
  cases visit.before.executing <;> rfl

theorem codeStart_eq :
    visit.codeStart = if visit.before.executing then
      operation.codeStart visit.item.stop visit.before else visit.before.codeStart := by
  rw [codeStart, executed?, h, Operation.codeStart]
  cases visit.before.executing with
  | true => simp
  | false => simp

end Executed

theorem keyCount_of_not_op (h : visit.item.operation? = none) : visit.keyCount = 0 := by
  have hTest : visit.test? = none := by
    unfold test? executed?
    rw [h, ite_self]
    rfl
  rw [keyCount, hTest]

theorem codeStart_of_not_op (h : visit.item.operation? = none) :
    visit.codeStart = visit.before.codeStart := by
  refine if_neg ?_
  rw [executed?, h, ite_self]
  exact nofun

/-- **What a known item does to the books**, the check of the depth aside. -/
theorem runItem_settles (hMem : visit.item ∈ script.items)
    (hKnown : visit.item.opcode.isKnown = true) (hOps : visit.before.opCount ≤ Machine.maxOps) :
    Settles visit.cost visit.codeStart (visit.Asks rules script) visit.before
      (runItem rules script visit.item) := by
  cases hContent : visit.item.content with
  | error e =>
    have hNone : visit.item.operation? = none := by simp only [Item.operation?, hContent]
    have hCost : visit.cost = 0 := by
      rw [cost, keyCount_of_not_op hNone]
      simp [Item.isCounted, hContent]
    rw [hCost, codeStart_of_not_op hNone, runItem_of_error hContent]
    exact settles_of_sameBooks hOps (.refl _) fun hThrow => by cases hThrow
  | ok instruction =>
    cases instruction with
    | push data =>
      have hNone : visit.item.operation? = none := by simp only [Item.operation?, hContent]
      have hCost : visit.cost = 0 := by
        rw [cost, keyCount_of_not_op hNone]
        simp [Item.isCounted, hContent]
      rw [hCost, codeStart_of_not_op hNone, runItem_of_push hContent]
      split
      · exact settles_of_sameBooks hOps (.refl _) fun hThrow => by cases hThrow
      · let pushing : Effects := ⟨fun _ => True, [], False⟩
        have hTame : MachineM.Tame script pushing (fun _ => True)
            (whenExecuting (onStack (StackM.push data))) :=
          .whenExecuting (.onStack (.push trivial))
        exact hTame.settles (fun _ => trivial) id (by simp [pushing]) hOps
    | op code =>
      obtain rfl := Script.opcode_eq_of_op hMem hContent
      obtain ⟨operation, hOperation⟩ := Option.isSome_iff_exists.1 hKnown
      have hItem : visit.item.operation? = some operation :=
        (Item.operation?_of_op hContent).trans hOperation
      have hConstant : ∀ n, operation = .constant n → n.natAbs < 2 ^ 32 := by
        rintro n rfl
        exact Opcode.natAbs_lt_of_constant hOperation
      have hAsks : ∀ calls, visit.before.executing = true ∧
          operation.Asks rules script visit.before calls → visit.Asks rules script calls := by
        rintro calls ⟨hExecuting, t, hTest, hAsks⟩
        refine ⟨t, ?_, hAsks⟩
        rw [test?_eq hItem, hExecuting]
        exact hTest
      rw [runItem_of_operation hContent hOperation, cost, keyCount_eq hItem, codeStart_eq hItem]
      simp only [Item.isCounted, hContent, countOpcode]
      -- the unit of the opcode comes before whatever the operation does
      split
      · refine .addOps_bind fun hAfford => ?_
        let counted : Machine := { visit.before with opCount := visit.before.opCount + 1 }
        have hRun : Settles _ _ _ counted (operation.run rules script visit.item.stop) :=
          operation.run_settles visit.item.stop hAfford hConstant
        exact hRun.mono hAsks
      · rw [Nat.zero_add]
        exact (operation.run_settles visit.item.stop hOps hConstant).mono hAsks

theorem step_of_unknown (hMem : visit.item ∈ script.items)
    (hUnknown : visit.item.opcode.isKnown = false) :
    step rules script visit.item visit.before = .error .unknownOpcode visit.before := by
  -- pushes are known, whole or cut off
  have hNotPush : ∃ code, visit.item.content = .ok (.op code) := by
    by_contra hOther
    have hContent := not_exists.1 hOther
    have hPush := Opcode.operation?_of_le (Script.opcode_le_of_ne_op hMem hContent)
    rw [Opcode.isKnown, hPush] at hUnknown
    cases hUnknown
  obtain ⟨code, hContent⟩ := hNotPush
  obtain rfl := Script.opcode_eq_of_op hMem hContent
  have hNone : visit.item.opcode.operation? = none := by
    rw [Opcode.isKnown, Option.isSome_eq_false_iff, Option.isNone_iff_eq_none] at hUnknown
    exact hUnknown
  rw [step_eq_error_iff, runItem_of_unknown hContent hNone]
  exact .inl rfl

/-- **What a visit does to the books.** -/
theorem settled (hMem : visit.item ∈ script.items)
    (hOps : visit.before.opCount ≤ Machine.maxOps) : visit.Settled rules script := by
  cases hKnown : visit.item.opcode.isKnown with
  | false =>
    have hStep : step rules script visit.item visit.before =
        .error .unknownOpcode visit.before := step_of_unknown hMem hKnown
    have hResult : visit.result rules script = .error .unknownOpcode := answer_of_error hStep
    refine ⟨?_, ?_, ?_, ?_, .inl ?_⟩
    · rw [hResult, hKnown]
      exact ⟨nofun, fun h => absurd h.1 Bool.false_ne_true⟩
    · rw [hResult]
      exact nofun
    · rw [hResult]
      exact nofun
    · rw [hResult]
      exact nofun
    · rw [after, leaves_of_error hStep]
  | true =>
    have hStep : Settles visit.cost visit.codeStart (visit.Asks rules script) visit.before
        (step rules script visit.item) :=
      (runItem_settles hMem hKnown hOps).bind_free fun _ _ hLeft => checkDepth_settles hLeft
    have hOverdrawn : visit.result rules script = .error .opCount ↔
        Machine.maxOps < visit.before.opCount + visit.cost := hStep.overdrawn_iff
    refine ⟨?_, ?_, ?_, ?_, hStep.asked⟩
    · rw [hKnown, hOverdrawn]
      exact ⟨fun h => ⟨rfl, h⟩, And.right⟩
    · intro hOk
      rw [← Nat.not_lt, ← hOverdrawn, hOk]
      exact nofun
    · intro hOk
      exact (hStep.paid () _ (result_eq_ok_iff.1 hOk)).1
    · intro hOk
      exact (hStep.paid () _ (result_eq_ok_iff.1 hOk)).2

end Visit

end LegacyScript
