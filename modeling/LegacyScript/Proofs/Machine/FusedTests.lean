import LegacyScript.Proofs.Machine.Operations

/-!
# Tests fused with a demand

Four opcodes test something and leave their verdict on the stack. Each of them also comes
fused with the demand that the verdict be true. A fused test does all that the test does
and `OP_VERIFY` after it, and fails for the same causes, only that a verdict of false has a
cause of its own.

Both of this rests on how a test ends. It never fails for its verdict, so that the cause of
the demand tells its two parts apart. And when it succeeds, what lies on top is a boolean as
it is written (`Test.run_judges`), which the demand reads back.

## Results

* `Test.run_judges` — a test that succeeds leaves its verdict.
* `Test.ends`       — a test fails for another cause than its verdict, or leaves it.
* `fused_test`      — a fused test is the test and the demand.
-/

namespace LegacyScript

open StackM MachineM

-- ---------------------------------------------------------------------------
-- Verdicts
-- ---------------------------------------------------------------------------

section Judging

variable {State α β : Type}

/-- Where the action succeeds, the top of the stack is a boolean. -/
def Judges (view : State → Stack) (x : EStateM ScriptError State α) : Prop :=
  ∀ s a t, x s = .ok a t →
    ∃ (verdict : Bool) (below : Stack), view t = (if verdict then [1] else []) :: below

variable {view : State → Stack} {x : EStateM ScriptError State α}
  {f : α → EStateM ScriptError State β}

/-- The last line judges. -/
theorem Judges.after (hf : ∀ a, Judges view (f a)) : Judges view (x >>= f) := by
  intro s b t h
  obtain ⟨a, u, -, hLast⟩ := bind_eq_ok_iff.1 h
  exact hf a u b t hLast

end Judging

theorem StackM.pushBool_judges (verdict : Bool) : Judges id (pushBool verdict) := by
  intro s a t h
  cases h
  exact ⟨verdict, s, rfl⟩

/-- A truth value is written as a boolean is. -/
theorem StackM.pushNumber_judges (verdict : Bool) :
    Judges id (pushNumber (Number.ofBool verdict)) := by
  unfold pushNumber
  rw [Number.encode_ofBool]
  exact pushBool_judges verdict

theorem MachineM.onStack_judges {α : Type} {op : StackM α} (h : Judges id op) :
    Judges Machine.stack (onStack op) := by
  intro m a after hAfter
  cases hOp : op m.stack with
  | ok b s =>
    rw [onStack_of_ok hOp] at hAfter
    cases hAfter
    exact h m.stack a s hOp
  | error cause s =>
    rw [onStack_of_error hOp] at hAfter
    cases hAfter

theorem testEqual_judges : Judges id testEqual :=
  .after fun _ => .after fun _ => .after fun _ => pushBool_judges _

theorem BinaryOp.numEqual_judges : Judges id (BinaryOp.run .numEqual) :=
  .after fun _ => .after fun _ => .after fun _ => pushNumber_judges _

variable {rules : Rules} {script : Script} {m : Machine}

theorem testSignature_judges : Judges Machine.stack (testSignature rules script) :=
  .after fun _ => .after fun _ => .after fun _ => .after fun _ => .after fun _ =>
    onStack_judges (pushBool_judges _)

theorem testSignatures_judges : Judges Machine.stack (testSignatures rules script) :=
  .after fun _ => .after fun _ => .after fun _ => .after fun _ => .after fun _ =>
    .after fun _ => .after fun _ => .after fun _ => .after fun _ => .after fun _ =>
    onStack_judges (pushBool_judges _)

/-- **A test that succeeds leaves its verdict on top.** -/
theorem Test.run_judges (t : Test) : Judges Machine.stack (t.run rules script) := by
  cases t with
  | equal => exact onStack_judges testEqual_judges
  | numEqual => exact onStack_judges BinaryOp.numEqual_judges
  | checkSig => exact testSignature_judges
  | checkMultiSig => exact testSignatures_judges

/-- The demand reads a verdict back. -/
theorem StackM.verify_verdict (cause : ScriptError) (verdict : Bool) (below : Stack) :
    verify cause ((if verdict then [1] else []) :: below) =
      if verdict then .ok () below else .error cause below := by
  cases verdict with
  | true => rfl
  | false => rfl

-- ---------------------------------------------------------------------------
-- How tests end
-- ---------------------------------------------------------------------------

/-- The machine with a verdict on top. -/
def Machine.judged (m : Machine) (verdict : Bool) : Machine :=
  { m with stack := (if verdict then [1] else []) :: m.stack }

theorem MachineM.verify_judged (cause : ScriptError) (verdict : Bool) (m : Machine) :
    onStack (StackM.verify cause) (m.judged verdict) =
      if verdict then .ok () m else .error cause m := by
  cases verdict with
  | true => exact onStack_of_ok (StackM.verify_verdict cause true m.stack)
  | false => exact onStack_of_error (StackM.verify_verdict cause false m.stack)

/-- None of the causes of a test is the one that its verdict gives to a demand. -/
theorem Test.ne_cause_of_mem (t : Test) :
    ∀ other ∈ .invalidStackOperation :: t.causes, other ≠ .verify ∧ other ≠ t.cause := by
  cases t with
  | _ => decide

/-- **A test fails for another cause than its verdict, or leaves its verdict.** -/
theorem Test.ends (t : Test) (rules : Rules) (script : Script) (m : Machine) :
    (∃ other after, other ≠ .verify ∧ other ≠ t.cause ∧
      t.run rules script m = .error other after) ∨
    ∃ (verdict : Bool) (after : Machine),
      t.run rules script m = .ok () (after.judged verdict) := by
  let anything : Effects := ⟨fun _ => True, t.causes, True⟩
  have hTame : MachineM.Tame script anything (fun _ => True) (t.run rules script) :=
    t.run_tame closed_true (fun _ => trivial) (List.Subset.refl _)
  have hEnds := hTame.ends (m := m) (Machine.elements_of_forall (fun _ => trivial) m)
  cases hRun : t.run rules script m with
  | ok u after =>
    obtain ⟨verdict, below, hStack⟩ := t.run_judges m u after hRun
    refine .inr ⟨verdict, { after with stack := below }, ?_⟩
    show _ = EStateM.Result.ok () { after with stack := _ :: below }
    rw [← hStack]
  | error other after =>
    rw [hRun] at hEnds
    obtain ⟨hVerify, hCause⟩ := t.ne_cause_of_mem other (List.mem_cons.2 hEnds.1)
    exact .inl ⟨other, after, hVerify, hCause, rfl⟩

-- ---------------------------------------------------------------------------
-- Opcodes
-- ---------------------------------------------------------------------------

/-- The opcodes that test something, the opcodes for the fused tests, and why these fail for
a verdict of false. -/
def Opcode.fusions : List (Opcode × Opcode × ScriptError) := [
  -- OP_EQUAL, OP_EQUALVERIFY
  (0x87, 0x88, .equalVerify),
  -- OP_NUMEQUAL, OP_NUMEQUALVERIFY
  (0x9c, 0x9d, .numEqualVerify),
  -- OP_CHECKSIG, OP_CHECKSIGVERIFY
  (0xac, 0xad, .checkSigVerify),
  -- OP_CHECKMULTISIG, OP_CHECKMULTISIGVERIFY
  (0xae, 0xaf, .checkMultiSigVerify)]

theorem Opcode.exists_test {plain fused : Opcode} {cause : ScriptError}
    (h : (plain, fused, cause) ∈ fusions) :
    ∃ t, plain.operation? = some (.test t) ∧ fused.operation? = some (.testVerify t) ∧
      t.cause = cause := by
  simp only [fusions, List.mem_cons, Prod.mk.injEq, List.not_mem_nil, or_false] at h
  rcases h with ⟨rfl, rfl, rfl⟩ | ⟨rfl, rfl, rfl⟩ | ⟨rfl, rfl, rfl⟩ | ⟨rfl, rfl, rfl⟩
  · exact ⟨.equal, rfl, rfl, rfl⟩
  · exact ⟨.numEqual, rfl, rfl, rfl⟩
  · exact ⟨.checkSig, rfl, rfl, rfl⟩
  · exact ⟨.checkMultiSig, rfl, rfl, rfl⟩

/-- Executes a test and OP_VERIFY after it. -/
def Opcode.executeTwo (rules : Rules) (script : Script) (plain : Opcode) : MachineM Unit := do
  plain.execute rules script
  execute rules script 0x69

/-- **How a fused test ends, and how its two parts do.** -/
theorem Opcode.fused_ends {plain fused : Opcode} {cause : ScriptError}
    (h : (plain, fused, cause) ∈ fusions) (rules : Rules) (script : Script) (m : Machine) :
    (∃ other after, other ≠ .verify ∧ other ≠ cause ∧
      plain.execute rules script m = .error other after ∧
      executeTwo rules script plain m = .error other after ∧
      fused.execute rules script m = .error other after) ∨
    ∃ (verdict : Bool) (after : Machine),
      plain.execute rules script m = .ok () (after.judged verdict) ∧
      executeTwo rules script plain m =
        (if verdict then .ok () after else .error .verify after) ∧
      fused.execute rules script m = if verdict then .ok () after else .error cause after := by
  obtain ⟨t, hPlain, hFused, rfl⟩ := exists_test h
  have hTest : plain.execute rules script = t.run rules script := execute_of_operation hPlain
  have hFuse : fused.execute rules script =
      t.run rules script >>= fun _ => onStack (StackM.verify t.cause) :=
    execute_of_operation hFused
  unfold executeTwo
  rw [hTest, hFuse]
  rcases t.ends rules script m with ⟨other, after, hVerify, hCause, hRun⟩ | ⟨verdict, after, hRun⟩
  · exact .inl ⟨other, after, hVerify, hCause, hRun, bind_of_error hRun, bind_of_error hRun⟩
  · refine .inr ⟨verdict, after, hRun, ?_, ?_⟩
    · rw [bind_of_ok hRun]
      exact verify_judged .verify verdict after
    · rw [bind_of_ok hRun]
      exact verify_judged t.cause verdict after

/-- **A fused test is the test and the demand.** It leaves just the machine that the test and
OP_VERIFY leave, and succeeds just when they do. It fails for the same cause, but for the
cause of OP_VERIFY, in place of which it has its own. The test itself fails for neither of
these two: they are the causes of a verdict of false. -/
theorem fused_test (rules : Rules) (script : Script) (m : Machine) {plain fused : Opcode}
    {cause : ScriptError} (h : (plain, fused, cause) ∈ Opcode.fusions) :
    leaves (fused.execute rules script) m = leaves (Opcode.executeTwo rules script plain) m ∧
    answer (fused.execute rules script) m =
      (answer (Opcode.executeTwo rules script plain) m).mapError
        (fun other => if other = .verify then cause else other) ∧
    answer (plain.execute rules script) m ≠ .error .verify ∧
    answer (plain.execute rules script) m ≠ .error cause := by
  rcases Opcode.fused_ends h rules script m with
    ⟨other, after, hVerify, hCause, hPlain, hTwo, hFused⟩ | ⟨verdict, after, hPlain, hTwo, hFused⟩
  · rw [leaves_of_error hFused, leaves_of_error hTwo, answer_of_error hFused,
      answer_of_error hTwo, answer_of_error hPlain]
    refine ⟨rfl, ?_, ?_, ?_⟩
    · show _ = Except.error (if other = .verify then cause else other)
      rw [if_neg hVerify]
    · exact fun hSame => hVerify (Except.error.inj hSame)
    · exact fun hSame => hCause (Except.error.inj hSame)
  · rw [answer_of_ok hPlain]
    cases verdict with
    | true =>
      rw [leaves_of_ok hFused, leaves_of_ok hTwo, answer_of_ok hFused, answer_of_ok hTwo]
      exact ⟨rfl, rfl, nofun, nofun⟩
    | false =>
      rw [leaves_of_error hFused, leaves_of_error hTwo, answer_of_error hFused,
        answer_of_error hTwo]
      exact ⟨rfl, rfl, nofun, nofun⟩

/-- Two numbers that differ are gone when the demand fails. A count of keys that is too large
fails the test itself. -/
theorem fused_test_failures :
    let rules : Rules := ⟨{ checkSig := fun _ _ _ => true }, Flags.none⟩
    let numbers := Machine.ofStack [[1], [2], [3]]
    let keys := Machine.ofStack [[21], [3]]
    (leaves (Opcode.execute rules [] 0x9d) numbers = Machine.ofStack [[3]] ∧
      answer (Opcode.execute rules [] 0x9d) numbers = .error .numEqualVerify) ∧
    leaves (Opcode.execute rules [] 0xaf) keys = Machine.ofStack [[3]] ∧
      answer (Opcode.execute rules [] 0xaf) keys = .error .pubkeyCount := by
  intro rules numbers keys
  have hNumEqual : (0x9c, 0x9d, .numEqualVerify) ∈ Opcode.fusions := by simp [Opcode.fusions]
  have hMultiSig : (0xae, 0xaf, .checkMultiSigVerify) ∈ Opcode.fusions := by
    simp [Opcode.fusions]
  obtain ⟨hLeft, hAnswer, -⟩ := fused_test rules [] numbers hNumEqual
  obtain ⟨hLeft', hAnswer', -⟩ := fused_test rules [] keys hMultiSig
  rw [hLeft, hAnswer, hLeft', hAnswer']
  exact ⟨⟨by decide +kernel, by decide +kernel⟩, by decide +kernel, by decide +kernel⟩

end LegacyScript
