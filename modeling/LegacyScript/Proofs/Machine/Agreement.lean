import LegacyScript.Proofs.Signature.Matching
import LegacyScript.Proofs.Machine.Trace
import LegacyScript.Verify

/-!
# What flags can matter to

A machine does not read its flags. They reach it through the checker, which is given them
with each question about the form of a signature or of a public key, and all that comes back
is a yes or a no. So two sets of rules under which every question has the same answer
(`Rules.Agree`) cannot be told apart by any script: each operation, each item and each run
is the same under both, and so is what is logged and what the checker was asked.

What the standard demands ask of the flags is little. `strictEnc` is looked at first, and
`evenS` only where `strictEnc` is set; the other two flags are never looked at.

## Results

* `Rules.Agree.run_eq`, `Rules.Agree.verifyScripts_eq` — rules that agree make one run of it.
* `Flags.isCanonicalSignature_eq`, `Flags.isCanonicalPubkey_eq` — what the demands depend on.
* `run_eq_of_flags` — both together: what flags cannot change.
-/

namespace LegacyScript

/-- Rules under which every question to the checker has the same answer. -/
def Rules.Agree (rules₁ rules₂ : Rules) : Prop :=
  ∀ question, rules₁.checker.answer rules₁.flags question =
    rules₂.checker.answer rules₂.flags question

namespace Rules.Agree

variable {rules₁ rules₂ : Rules} {script : Script}

-- ---------------------------------------------------------------------------
-- Consultations
-- ---------------------------------------------------------------------------

theorem askAll_eq (h : Rules.Agree rules₁ rules₂) (questions : List Question) :
    rules₁.checker.askAll rules₁.flags questions =
      rules₂.checker.askAll rules₂.flags questions := by
  induction questions with
  | nil => rfl
  | cons question questions ih => rw [Checker.askAll, Checker.askAll, h question, ih]

theorem consult_eq (h : Rules.Agree rules₁ rules₂) :
    rules₁.checker.consult rules₁.flags = rules₂.checker.consult rules₂.flags := by
  funext scriptCode signature pubkey
  exact h.askAll_eq _

theorem matchAll_eq (h : Rules.Agree rules₁ rules₂) :
    rules₁.checker.matchAll rules₁.flags = rules₂.checker.matchAll rules₂.flags := by
  funext scriptCode signatures pubkeys
  -- every round uses up a key, whether or not it does a signature
  induction pubkeys generalizing signatures with
  | nil => cases signatures <;> rfl
  | cons pubkey pubkeys ih =>
    cases signatures with
    | nil => rfl
    | cons signature signatures =>
      rw [Checker.matchAll_cons_cons, Checker.matchAll_cons_cons, h.consult_eq]
      simp only [ih]

-- ---------------------------------------------------------------------------
-- Operations and items
-- ---------------------------------------------------------------------------

/-- The two tests of signatures are the only operations that look at the rules. -/
theorem test_eq (h : Rules.Agree rules₁ rules₂) (t : Test) :
    t.run rules₁ script = t.run rules₂ script := by
  cases t with
  | equal => rfl
  | numEqual => rfl
  | checkSig =>
    show testSignature rules₁ script = testSignature rules₂ script
    unfold testSignature
    rw [h.consult_eq]
  | checkMultiSig =>
    show testSignatures rules₁ script = testSignatures rules₂ script
    unfold testSignatures
    rw [h.matchAll_eq]

theorem execute_eq (h : Rules.Agree rules₁ rules₂) (operation : Operation) :
    operation.execute rules₁ script = operation.execute rules₂ script := by
  cases operation with
  | test t => exact h.test_eq t
  | testVerify t =>
    show (t.run rules₁ script >>= fun _ => MachineM.onStack (StackM.verify t.cause)) =
      (t.run rules₂ script >>= fun _ => MachineM.onStack (StackM.verify t.cause))
    rw [h.test_eq t]
  | _ => rfl

theorem operation_eq (h : Rules.Agree rules₁ rules₂) (stop : Nat) (operation : Operation) :
    operation.run rules₁ script stop = operation.run rules₂ script stop := by
  unfold Operation.run
  split
  · rfl
  · rfl
  · rfl
  · rw [h.execute_eq]

/-- **An item does the same under both rules.** -/
theorem step_eq (h : Rules.Agree rules₁ rules₂) (item : Item) :
    step rules₁ script item = step rules₂ script item := by
  have hItem : runItem rules₁ script item = runItem rules₂ script item := by
    unfold runItem
    simp only [h.operation_eq]
  unfold step
  rw [hItem]

-- ---------------------------------------------------------------------------
-- Runs
-- ---------------------------------------------------------------------------

theorem runItems_eq (h : Rules.Agree rules₁ rules₂) (items : List Item) (m : Machine)
    (steps peak : Nat) :
    script.runItems rules₁ items m steps peak = script.runItems rules₂ items m steps peak := by
  induction items generalizing m steps peak with
  | nil => rfl
  | cons item items ih =>
    rw [Script.runItems, Script.runItems, h.step_eq item]
    cases step rules₂ script item m with
    | ok u after => exact ih after _ _
    | error cause after => rfl

/-- **A script cannot tell rules that agree apart.** -/
theorem run_eq (h : Rules.Agree rules₁ rules₂) (m : Machine) (script : Script) :
    script.run rules₁ m = script.run rules₂ m := by
  unfold Script.run
  simp only [h.runItems_eq]

/-- Nor can two scripts, one after the other. -/
theorem verifyScripts_eq (h : Rules.Agree rules₁ rules₂) (unlocking locking : Script) :
    verifyScripts rules₁ unlocking locking = verifyScripts rules₂ unlocking locking := by
  unfold verifyScripts
  simp only [h.run_eq]

end Rules.Agree

-- ---------------------------------------------------------------------------
-- The standard demands
-- ---------------------------------------------------------------------------

namespace Flags

variable {flags₁ flags₂ : Flags}

/-- The demand on signatures looks at `evenS` only where `strictEnc` is set. -/
theorem isCanonicalSignature_eq
    (hStrict : flags₁.contains strictEnc = flags₂.contains strictEnc)
    (hEven : flags₁.contains strictEnc = true → flags₁.contains evenS = flags₂.contains evenS)
    (signature : Bytes) :
    isCanonicalSignature signature flags₁ = isCanonicalSignature signature flags₂ := by
  unfold isCanonicalSignature
  by_cases hSet : flags₁.contains strictEnc = true
  · rw [← hStrict, hEven hSet]
  · rw [← hStrict, Bool.eq_false_of_not_eq_true hSet]
    rfl

/-- The demand on public keys looks at `strictEnc` alone. -/
theorem isCanonicalPubkey_eq (hStrict : flags₁.contains strictEnc = flags₂.contains strictEnc)
    (pubkey : Bytes) : isCanonicalPubkey pubkey flags₁ = isCanonicalPubkey pubkey flags₂ := by
  unfold isCanonicalPubkey
  rw [hStrict]

end Flags

/-- A checker with the standard demands gives the same answers under flags that agree where
these demands look. -/
theorem Checker.agree_of_flags {checker : Checker} {flags₁ flags₂ : Flags}
    (hSignature : checker.acceptsSignature = isCanonicalSignature)
    (hPubkey : checker.acceptsPubkey = isCanonicalPubkey)
    (hStrict : flags₁.contains Flags.strictEnc = flags₂.contains Flags.strictEnc)
    (hEven : flags₁.contains Flags.strictEnc = true →
      flags₁.contains Flags.evenS = flags₂.contains Flags.evenS) :
    Rules.Agree ⟨checker, flags₁⟩ ⟨checker, flags₂⟩ := by
  intro question
  cases question with
  | acceptsSignature signature =>
    show checker.acceptsSignature signature flags₁ = checker.acceptsSignature signature flags₂
    rw [hSignature]
    exact Flags.isCanonicalSignature_eq hStrict hEven signature
  | acceptsPubkey pubkey =>
    show checker.acceptsPubkey pubkey flags₁ = checker.acceptsPubkey pubkey flags₂
    rw [hPubkey]
    exact Flags.isCanonicalPubkey_eq hStrict pubkey
  | checkSig signature pubkey scriptCode => rfl

-- ---------------------------------------------------------------------------
-- Whole runs
-- ---------------------------------------------------------------------------

/-- **What flags cannot change.** With a checker that makes the standard demands, flags that
agree on `strictEnc` and, where that is set, on `evenS` give the same report of every script
on every machine, and the same verification of every two scripts. So `p2sh` and `noCache`
never matter, and `evenS` does not without `strictEnc`. -/
theorem run_eq_of_flags (checker : Checker) (flags₁ flags₂ : Flags)
    (hSignature : checker.acceptsSignature = isCanonicalSignature)
    (hPubkey : checker.acceptsPubkey = isCanonicalPubkey)
    (hStrict : flags₁.contains Flags.strictEnc = flags₂.contains Flags.strictEnc)
    (hEven : flags₁.contains Flags.strictEnc = true →
      flags₁.contains Flags.evenS = flags₂.contains Flags.evenS) :
    (∀ (m : Machine) (script : Script),
      script.run ⟨checker, flags₁⟩ m = script.run ⟨checker, flags₂⟩ m) ∧
    ∀ unlocking locking : Script,
      verifyScripts ⟨checker, flags₁⟩ unlocking locking =
        verifyScripts ⟨checker, flags₂⟩ unlocking locking := by
  have hAgree := Checker.agree_of_flags hSignature hPubkey hStrict hEven
  exact ⟨hAgree.run_eq, hAgree.verifyScripts_eq⟩

/-- A signature whose S value is odd passes under `strictEnc`, and fails when `evenS` is set
with it. It passes under `evenS` alone as it does under no flag. The flags `p2sh` and
`noCache`, set on one side, make no difference in any of the three cases. The first case is
that of the checker for an input of any transaction, too. -/
theorem run_eq_of_flags_oddS :
    let checker : Checker := { checkSig := fun _ _ _ => true }
    let signature : Bytes := [0x30, 0x06, 0x02, 0x01, 0x01, 0x02, 0x01, 0x01, 0x01]
    let m := Machine.ofStack [0x02 :: List.replicate 32 0x01, signature]
    let run (flags : Flags) := Script.run ⟨checker, flags⟩ m [0xac]
    let strict : Flags := ⟨Flags.strictEnc, by decide⟩
    let strict' : Flags := ⟨Flags.strictEnc ||| Flags.p2sh ||| Flags.noCache, by decide⟩
    let even : Flags := ⟨Flags.strictEnc ||| Flags.evenS, by decide⟩
    let even' : Flags := ⟨Flags.supported, by decide⟩
    let loose : Flags := ⟨Flags.evenS, by decide⟩
    let loose' : Flags := ⟨Flags.p2sh ||| Flags.noCache, by decide⟩
    strict.contains Flags.strictEnc = strict'.contains Flags.strictEnc ∧
      strict.contains Flags.evenS = strict'.contains Flags.evenS ∧
      run strict = run strict' ∧ (run strict').machine.stack = [[1]] ∧
      run even = run even' ∧ (run even').machine.stack = [[]] ∧
      run loose = run loose' ∧ (run loose').machine.stack = [[1]] ∧
      ∀ (tx : Transaction) (index : Nat) (demanded : UInt32) (unlocking locking : Script),
        verifyScripts ⟨tx.checker index demanded, strict⟩ unlocking locking =
          verifyScripts ⟨tx.checker index demanded, strict'⟩ unlocking locking := by
  intro checker signature m run strict strict' even even' loose loose'
  have hStrict := run_eq_of_flags checker strict strict' rfl rfl (by decide) (by decide)
  have hEven := run_eq_of_flags checker even even' rfl rfl (by decide) (by decide)
  have hLoose := run_eq_of_flags checker loose loose' rfl rfl (by decide) (by decide)
  refine ⟨by decide, by decide, hStrict.1 m _, by decide +kernel, hEven.1 m _, by decide +kernel,
    hLoose.1 m _, by decide +kernel, ?_⟩
  intro tx index demanded
  exact (run_eq_of_flags (tx.checker index demanded) strict strict' rfl rfl (by decide)
    (by decide)).2

end LegacyScript
