import LegacyScript.Proofs.Machine.Operations
import LegacyScript.Proofs.Signature.Matching

/-!
# What the tests of signatures take and ask

A test of signatures first takes its operands from the stack, and then asks the
checker about them. In what it asks, the test of one signature is the test of several
signatures with one of each (`testSignature_eq`, `testSignatures_eq`), so that what is
known of the calls of a matching holds for both.

`Takes` says without any run what a test finds on the stack: how many keys and
signatures there are is written in between.

## Results

* `takes_of_takeOne`, `takes_of_takeMany` — what is taken, as it lies on the stack.
* `countP_matchAll_calls_le` — a matching checks at most one signature for each key.
* `vetted_matchAll`          — what has been asked in front of each check.
-/

namespace LegacyScript

open StackM MachineM

-- ---------------------------------------------------------------------------
-- Taking operands
-- ---------------------------------------------------------------------------

/-- The count on top of a stack, if it is a number from zero to `limit`. -/
def Stack.count? (limit : Nat) : Stack → Option Nat
  | [] => none
  | top :: _ =>
    match Number.parse top Number.maxSize with
    | .ok n => if 0 ≤ n ∧ n ≤ limit then some n.toNat else none
    | .error _ => none

theorem Stack.count?_of_parse {limit n : Nat} {top : Bytes} {s : Stack}
    (hParse : Number.parse top Number.maxSize = .ok (n : Int)) (hLimit : n ≤ limit) :
    Stack.count? limit (top :: s) = some n := by
  have hRange : 0 ≤ (n : Int) ∧ (n : Int) ≤ limit :=
    ⟨Int.natCast_nonneg n, Int.ofNat_le.2 hLimit⟩
  simp only [count?, hParse, if_pos hRange, Int.toNat_natCast]

theorem Stack.count?_eq_some {limit n : Nat} {s : Stack} (h : s.count? limit = some n) :
    ∃ top t, s = top :: t ∧ Number.parse top Number.maxSize = .ok (n : Int) ∧ n ≤ limit := by
  cases s with
  | nil => cases h
  | cons top t =>
    simp only [count?] at h
    split at h
    · next z hParse =>
      split at h
      · next hRange =>
        have hNat : (n : Int) = z := by
          rw [← Option.some.inj h]
          exact Int.toNat_of_nonneg hRange.1
        refine ⟨top, t, rfl, ?_, ?_⟩
        · rw [hNat]
          exact hParse
        · omega
      · cases h
    · cases h

namespace StackM

variable {s t : Stack} {value : Bytes} {values : List Bytes} {depth limit n : Nat}
  {cause : ScriptError}

theorem pop_eq_ok (h : pop s = .ok value t) : s = value :: t := by
  cases s with
  | nil => cases h
  | cons top s =>
    cases h
    rfl

theorem require_eq_ok (h : require depth s = .ok () t) : t = s := by
  rcases Nat.lt_or_ge s.length depth with hLt | hLe
  · rw [require_of_lt hLt] at h
    cases h
  · rw [require_of_le hLe] at h
    cases h
    rfl

theorem popNumber_eq_ok {z : Int} (h : popNumber s = .ok z t) :
    ∃ value, s = value :: t ∧ Number.parse value Number.maxSize = .ok z := by
  obtain ⟨value, u, hPop, hRead⟩ := bind_eq_ok_iff.1 h
  cases hParse : Number.parse value Number.maxSize with
  | error cause =>
    rw [hParse] at hRead
    cases hRead
  | ok n =>
    rw [hParse] at hRead
    cases hRead
    exact ⟨value, pop_eq_ok hPop, hParse⟩

theorem popCount_eq_ok (h : popCount limit cause s = .ok n t) :
    ∃ value, s = value :: t ∧ Number.parse value Number.maxSize = .ok (n : Int) ∧ n ≤ limit := by
  obtain ⟨z, u, hNumber, hRange⟩ := bind_eq_ok_iff.1 h
  split at hRange
  · next hLimit =>
    cases hRange
    obtain ⟨value, hStack, hParse⟩ := popNumber_eq_ok hNumber
    have hNat : (z.toNat : Int) = z := Int.toNat_of_nonneg hLimit.1
    refine ⟨value, hStack, ?_, ?_⟩
    · rw [hNat]
      exact hParse
    · omega
  · cases hRange

/-- **A count is taken just when there is one.** -/
theorem popCount_eq_ok_iff :
    (∃ t, popCount limit cause s = .ok n t) ↔ s.count? limit = some n := by
  constructor
  · rintro ⟨t, h⟩
    obtain ⟨value, rfl, hParse, hLimit⟩ := popCount_eq_ok h
    exact Stack.count?_of_parse hParse hLimit
  · intro h
    obtain ⟨top, t, rfl, hParse, hLimit⟩ := Stack.count?_eq_some h
    exact ⟨t, popCount_of_parse hParse hLimit⟩

theorem popMany_eq_ok (h : popMany n s = .ok values t) : s = values ++ t ∧ values.length = n := by
  induction n generalizing s values with
  | zero =>
    cases h
    exact ⟨rfl, rfl⟩
  | succ n ih =>
    obtain ⟨value, u, hPop, hRest⟩ := bind_eq_ok_iff.1 h
    obtain ⟨others, w, hMany, hPure⟩ := bind_eq_ok_iff.1 hRest
    cases hPure
    obtain ⟨rfl, hLength⟩ := ih hMany
    refine ⟨pop_eq_ok hPop, ?_⟩
    rw [List.length_cons, hLength]

end StackM

/-- The operands of a test of signatures. -/
structure Operands where
  signatures : List Bytes
  pubkeys : List Bytes

/-- Takes the operands of the test of one signature. -/
def takeOne : StackM Operands := do
  require 2
  let pubkey ← pop
  let signature ← pop
  pure ⟨[signature], [pubkey]⟩

/-- Takes the operands of the test of several signatures, behind the number of keys. -/
def takeMany (keyCount : Nat) : StackM Operands := do
  require (keyCount + 1)
  let pubkeys ← popMany keyCount
  let signatureCount ← popCount keyCount .sigCount
  require (signatureCount + 1)
  let signatures ← popMany signatureCount
  let _ ← pop
  pure ⟨signatures, pubkeys⟩

/-- A test takes some signatures and public keys from a stack, each of them from the top
down. -/
inductive Takes : Test → Stack → (signatures pubkeys : List Bytes) → Prop
  | checkSig (pubkey signature : Bytes) (below : Stack) :
      Takes .checkSig (pubkey :: signature :: below) [signature] [pubkey]
  | checkMultiSig {keyCount signatureCount extra : Bytes} {signatures pubkeys : List Bytes}
      {below : Stack}
      (hKeyCount : Number.parse keyCount Number.maxSize = .ok (pubkeys.length : Int))
      (hKeys : pubkeys.length ≤ Machine.maxPubkeys)
      (hSignatureCount : Number.parse signatureCount Number.maxSize =
        .ok (signatures.length : Int))
      (hSignatures : signatures.length ≤ pubkeys.length) :
      Takes .checkMultiSig
        (keyCount :: (pubkeys ++ signatureCount :: (signatures ++ extra :: below)))
        signatures pubkeys

section Taking

variable {s t u : Stack} {operands : Operands} {keyCount : Nat} {cause : ScriptError}

theorem takes_of_takeOne (h : takeOne s = .ok operands t) :
    Takes .checkSig s operands.signatures operands.pubkeys := by
  obtain ⟨⟨⟩, s₁, hRequire, h⟩ := bind_eq_ok_iff.1 h
  obtain ⟨pubkey, s₂, hPubkey, h⟩ := bind_eq_ok_iff.1 h
  obtain ⟨signature, s₃, hSignature, h⟩ := bind_eq_ok_iff.1 h
  cases h
  obtain rfl := require_eq_ok hRequire
  obtain rfl := pop_eq_ok hPubkey
  obtain rfl := pop_eq_ok hSignature
  exact .checkSig pubkey signature t

theorem takes_of_takeMany (hCount : popCount Machine.maxPubkeys cause s = .ok keyCount u)
    (h : takeMany keyCount u = .ok operands t) :
    Takes .checkMultiSig s operands.signatures operands.pubkeys ∧
      operands.pubkeys.length = keyCount := by
  obtain ⟨value, rfl, hKeyCount, hKeys⟩ := popCount_eq_ok hCount
  -- the lines of the operation, all of which answered
  obtain ⟨⟨⟩, s₁, hRequire, h⟩ := bind_eq_ok_iff.1 h
  obtain ⟨pubkeys, s₂, hPubkeys, h⟩ := bind_eq_ok_iff.1 h
  obtain ⟨signatureCount, s₃, hCount', h⟩ := bind_eq_ok_iff.1 h
  obtain ⟨⟨⟩, s₄, hRequire', h⟩ := bind_eq_ok_iff.1 h
  obtain ⟨signatures, s₅, hSignatures, h⟩ := bind_eq_ok_iff.1 h
  obtain ⟨extra, s₆, hExtra, h⟩ := bind_eq_ok_iff.1 h
  cases h
  -- and what each of them says about the stack, from the top down
  obtain rfl := require_eq_ok hRequire
  obtain ⟨rfl, rfl⟩ := popMany_eq_ok hPubkeys
  obtain ⟨value', rfl, hSignatureCount, hFewer⟩ := popCount_eq_ok hCount'
  obtain rfl := require_eq_ok hRequire'
  obtain ⟨rfl, rfl⟩ := popMany_eq_ok hSignatures
  obtain rfl := pop_eq_ok hExtra
  exact ⟨.checkMultiSig hKeyCount hKeys hSignatureCount hFewer, rfl⟩

theorem takeOne_tame {e : Effects} : StackM.Tame e (fun _ => True) takeOne :=
  .bind (.require 2) fun _ _ => .bind .pop fun _ _ => .bind .pop fun _ _ => .pure trivial

theorem takeMany_tame {e : Effects} (hOverflow : .numOverflow ∈ e.causes)
    (hSigCount : .sigCount ∈ e.causes) : StackM.Tame e (fun _ => True) (takeMany keyCount) :=
  .bind (.require _) fun _ _ => .bind (popMany_tame _) fun _ _ =>
    .bind (popCount_tame hOverflow hSigCount) fun _ _ => .bind (.require _) fun _ _ =>
    .bind (popMany_tame _) fun _ _ => .bind .pop fun _ _ => .pure trivial

end Taking

-- ---------------------------------------------------------------------------
-- Asking about them
-- ---------------------------------------------------------------------------

namespace MachineM

theorem onStack_pure {α : Type} (a : α) : onStack (pure a : StackM α) = pure a := rfl

theorem onStack_bind {α β : Type} (x : StackM α) (f : α → StackM β) :
    onStack (x >>= f) = onStack x >>= fun a => onStack (f a) := by
  funext m
  cases h : x m.stack with
  | ok a stack =>
    rw [bind_of_ok (onStack_of_ok h)]
    unfold onStack
    rw [bind_of_ok h]
  | error cause stack =>
    rw [bind_of_error (onStack_of_error h), onStack_of_error (bind_of_error h)]

end MachineM

namespace Operands

/-- The script code that a test of these operands shows to the checker: no signature
covers any of the signatures. -/
def scriptCode (operands : Operands) (script : Script) (m : Machine) : Script :=
  operands.signatures.foldl Script.removeSignature (m.coveredCode script)

/-- What the checker is asked about the operands, and the verdict: the signatures are
matched with the keys in order. -/
def outcome (operands : Operands) (rules : Rules) (script : Script) (m : Machine) :
    Consultation :=
  rules.checker.matchAll rules.flags (operands.scriptCode script m) operands.signatures
    operands.pubkeys

/-- Asks about the operands, and puts the verdict on the stack. -/
def ask (operands : Operands) (rules : Rules) (script : Script) : MachineM Unit := do
  let m ← get
  let verdict ← record (operands.outcome rules script m)
  onStack (pushBool verdict)

theorem ask_eq (operands : Operands) (rules : Rules) (script : Script) (m : Machine) :
    operands.ask rules script m = .ok () { m with
      stack := (if (operands.outcome rules script m).verdict then [1] else []) :: m.stack
      calls := m.calls ++ (operands.outcome rules script m).calls } := rfl

end Operands

variable {rules : Rules} {script : Script}

/-- To ask about one signature is a matching of one signature with one key. -/
theorem Checker.matchAll_singleton {checker : Checker} {flags : Flags} {scriptCode : Script}
    {signature pubkey : Bytes} :
    checker.matchAll flags scriptCode [signature] [pubkey] =
      checker.consult flags scriptCode signature pubkey := by
  rw [matchAll_cons_cons]
  dsimp only
  cases hVerdict : (checker.consult flags scriptCode signature pubkey).verdict with
  | true =>
    -- no signature is left, and that is a success
    rw [if_pos rfl, if_neg (show ¬([] : List Bytes).length < [].length by decide), matchAll_nil,
      List.append_nil, ← hVerdict]
  | false =>
    -- the signature is left, and there is no other key
    have hFew : ([] : List Bytes).length < [signature].length := Nat.lt_succ_self 0
    rw [if_neg Bool.false_ne_true, if_pos hFew, ← hVerdict]

theorem testSignature_eq :
    testSignature rules script = onStack takeOne >>= fun operands => operands.ask rules script := by
  simp only [testSignature, takeOne, Operands.ask, Operands.outcome, Operands.scriptCode,
    onStack_bind, onStack_pure, bind_assoc, pure_bind, Checker.matchAll_singleton, List.foldl_cons,
    List.foldl_nil]

theorem testSignatures_eq :
    testSignatures rules script =
      onStack (popCount Machine.maxPubkeys .pubkeyCount) >>= fun keyCount =>
        addOps keyCount >>= fun _ =>
          onStack (takeMany keyCount) >>= fun operands => operands.ask rules script := by
  simp only [testSignatures, takeMany, Operands.ask, Operands.outcome, Operands.scriptCode,
    onStack_bind, onStack_pure, bind_assoc, pure_bind]

-- ---------------------------------------------------------------------------
-- The calls of a matching
-- ---------------------------------------------------------------------------

theorem append_eq_append_cons {α : Type} {ws xs ys zs : List α} {a : α}
    (h : ws ++ xs = ys ++ a :: zs) :
    (∃ more, ws = ys ++ a :: more) ∨ ∃ more, ys = ws ++ more ∧ xs = more ++ a :: zs := by
  rcases List.append_eq_append_iff.1 h with ⟨more, hFront, hRest⟩ | ⟨more, hFront, hRest⟩
  · exact .inr ⟨more, hFront, hRest⟩
  · cases more with
    | nil =>
      rw [List.append_nil] at hFront
      exact .inr ⟨[], by rw [hFront, List.append_nil], hRest.symm⟩
    | cons b more =>
      obtain ⟨rfl, -⟩ := List.cons.inj hRest
      exact .inl ⟨more, hFront⟩

/-- Whether a call checks a signature against a key. -/
def Call.checksSignature (call : Call) : Bool :=
  match call.question with
  | .checkSig .. => true
  | .acceptsSignature _ | .acceptsPubkey _ => false

namespace Checker

variable {checker : Checker} {flags : Flags} {scriptCode : Script} {signature pubkey : Bytes}
  {signatures pubkeys : List Bytes}

theorem askAll_calls_of_yes (question : Question) {questions : List Question}
    (h : checker.answer flags question = true) :
    (checker.askAll flags (question :: questions)).calls =
      ⟨question, true⟩ :: (checker.askAll flags questions).calls := by
  rw [askAll, if_pos h]

theorem askAll_calls_of_no (question : Question) {questions : List Question}
    (h : checker.answer flags question = false) :
    (checker.askAll flags (question :: questions)).calls = [⟨question, false⟩] := by
  rw [askAll, if_neg (Bool.not_eq_true _ ▸ h)]

theorem consult_calls :
    (checker.consult flags scriptCode signature pubkey).calls =
      if checker.acceptsSignature signature flags then
        if checker.acceptsPubkey pubkey flags then
          [⟨.acceptsSignature signature, true⟩, ⟨.acceptsPubkey pubkey, true⟩,
            ⟨.checkSig signature pubkey scriptCode,
              checker.checkSig signature pubkey scriptCode⟩]
        else [⟨.acceptsSignature signature, true⟩, ⟨.acceptsPubkey pubkey, false⟩]
      else [⟨.acceptsSignature signature, false⟩] := by
  unfold consult
  cases hSignature : checker.acceptsSignature signature flags with
  | false =>
    rw [askAll_calls_of_no (.acceptsSignature signature) hSignature]
    rfl
  | true =>
    rw [askAll_calls_of_yes (.acceptsSignature signature) hSignature]
    cases hPubkey : checker.acceptsPubkey pubkey flags with
    | false =>
      rw [askAll_calls_of_no (.acceptsPubkey pubkey) hPubkey]
      rfl
    | true =>
      rw [askAll_calls_of_yes (.acceptsPubkey pubkey) hPubkey]
      -- the last question is recorded either way
      cases hCheck : checker.checkSig signature pubkey scriptCode with
      | false =>
        rw [askAll_calls_of_no (.checkSig signature pubkey scriptCode) hCheck]
        rfl
      | true =>
        rw [askAll_calls_of_yes (.checkSig signature pubkey scriptCode) hCheck]
        rfl

theorem countP_consult_calls_le :
    (checker.consult flags scriptCode signature pubkey).calls.countP Call.checksSignature ≤ 1 := by
  rw [consult_calls]
  split
  · split
    · exact Nat.le_refl 1
    · exact Nat.zero_le 1
  · exact Nat.zero_le 1

/-- **A matching checks at most one signature for each key.** -/
theorem countP_matchAll_calls_le :
    (checker.matchAll flags scriptCode signatures pubkeys).calls.countP Call.checksSignature ≤
      pubkeys.length := by
  induction pubkeys generalizing signatures with
  | nil => cases signatures <;> exact Nat.le_refl 0
  | cons pubkey pubkeys ih =>
    cases signatures with
    | nil => exact Nat.zero_le _
    | cons signature signatures =>
      have hTried : (checker.consult flags scriptCode signature pubkey).calls.countP
          Call.checksSignature ≤ 1 := countP_consult_calls_le
      rw [matchAll_cons_cons, List.length_cons]
      dsimp only
      generalize (if (checker.consult flags scriptCode signature pubkey).verdict = true then
        signatures else signature :: signatures) = left
      by_cases hFew : pubkeys.length < left.length
      · rw [if_pos hFew]
        exact Nat.le_add_left_of_le hTried
      · have hOthers : (checker.matchAll flags scriptCode left pubkeys).calls.countP
            Call.checksSignature ≤ pubkeys.length := ih
        rw [if_neg hFew, List.countP_append]
        omega

/-- What holds of each signature check among some calls: it is about the script code, a
signature and a key given, and has just been found worth asking. -/
def Vetted (checker : Checker) (flags : Flags) (scriptCode : Script)
    (signatures pubkeys : List Bytes) (calls : List Call) : Prop :=
  ∀ earlier later signature pubkey code verdict,
    calls = earlier ++ ⟨.checkSig signature pubkey code, verdict⟩ :: later →
      (signature ∈ signatures ∧ pubkey ∈ pubkeys ∧ code = scriptCode ∧
        verdict = checker.checkSig signature pubkey code) ∧
      (checker.acceptsSignature signature flags = true ∧
        checker.acceptsPubkey pubkey flags = true) ∧
      ∃ before, earlier =
        before ++ [⟨.acceptsSignature signature, true⟩, ⟨.acceptsPubkey pubkey, true⟩]

theorem vetted_nil : checker.Vetted flags scriptCode signatures pubkeys [] := by
  intro earlier later signature pubkey code verdict hCalls
  simp at hCalls

theorem Vetted.append {calls calls' : List Call}
    (h : checker.Vetted flags scriptCode signatures pubkeys calls)
    (h' : checker.Vetted flags scriptCode signatures pubkeys calls') :
    checker.Vetted flags scriptCode signatures pubkeys (calls ++ calls') := by
  intro earlier later signature pubkey code verdict hCalls
  rcases append_eq_append_cons hCalls with ⟨more, hMore⟩ | ⟨more, rfl, hMore⟩
  · exact h earlier more signature pubkey code verdict hMore
  · obtain ⟨hAbout, hAccepted, before, rfl⟩ := h' more later signature pubkey code verdict hMore
    exact ⟨hAbout, hAccepted, calls ++ before, (List.append_assoc ..).symm⟩

theorem Vetted.mono {signatures' pubkeys' : List Bytes} {calls : List Call}
    (h : checker.Vetted flags scriptCode signatures pubkeys calls)
    (hSignatures : signatures ⊆ signatures') (hPubkeys : pubkeys ⊆ pubkeys') :
    checker.Vetted flags scriptCode signatures' pubkeys' calls := by
  intro earlier later signature pubkey code verdict hCalls
  obtain ⟨⟨hSignature, hPubkey, hCode⟩, hBefore⟩ := h _ _ _ _ _ _ hCalls
  exact ⟨⟨hSignatures hSignature, hPubkeys hPubkey, hCode⟩, hBefore⟩

theorem vetted_consult :
    checker.Vetted flags scriptCode [signature] [pubkey]
      (checker.consult flags scriptCode signature pubkey).calls := by
  intro earlier later signature' pubkey' code verdict hCalls
  rw [consult_calls] at hCalls
  -- the one check comes last, if it comes at all
  split_ifs at hCalls with hSignature hPubkey
  · rcases earlier with _ | ⟨first, _ | ⟨second, _ | ⟨third, earlier⟩⟩⟩
    · simp at hCalls
    · simp at hCalls
    · simp only [List.cons_append, List.nil_append, List.cons.injEq, Call.mk.injEq,
        Question.checkSig.injEq] at hCalls
      obtain ⟨rfl, rfl, ⟨⟨rfl, rfl, rfl⟩, rfl⟩, -⟩ := hCalls
      exact ⟨⟨List.mem_singleton_self _, List.mem_singleton_self _, rfl, rfl⟩,
        ⟨hSignature, hPubkey⟩, [], rfl⟩
    · simp at hCalls
  · exfalso
    rcases earlier with _ | ⟨first, _ | ⟨second, earlier⟩⟩ <;> simp_all
  · exfalso
    rcases earlier with _ | ⟨first, earlier⟩ <;> simp_all

/-- **Every check of a matching has been vetted.** -/
theorem vetted_matchAll :
    checker.Vetted flags scriptCode signatures pubkeys
      (checker.matchAll flags scriptCode signatures pubkeys).calls := by
  induction pubkeys generalizing signatures with
  | nil => cases signatures <;> exact vetted_nil
  | cons pubkey pubkeys ih =>
    cases signatures with
    | nil => exact vetted_nil
    | cons signature signatures =>
      have hFirst : checker.Vetted flags scriptCode (signature :: signatures) (pubkey :: pubkeys)
          (checker.consult flags scriptCode signature pubkey).calls :=
        vetted_consult.mono (by simp) (by simp)
      rw [matchAll_cons_cons]
      dsimp only
      generalize hLeft : (if (checker.consult flags scriptCode signature pubkey).verdict = true then
        signatures else signature :: signatures) = left
      have hSubset : left ⊆ signature :: signatures := by
        rw [← hLeft]
        split <;> simp
      by_cases hFew : pubkeys.length < left.length
      · -- too few keys are left, and the matching ends here
        rw [if_pos hFew]
        exact hFirst
      · have hOthers := ih.mono hSubset (List.subset_cons_self pubkey pubkeys)
        rw [if_neg hFew]
        exact hFirst.append hOthers

end Checker

end LegacyScript
