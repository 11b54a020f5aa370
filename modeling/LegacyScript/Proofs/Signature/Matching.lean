import LegacyScript.Proofs.Stack.Actions
import Mathlib.Data.Fin.VecNotation
import Mathlib.Data.List.Flatten
import Mathlib.Data.List.Forall2
import Mathlib.Data.List.NodupEquivFin
import Mathlib.Order.Fin.Basic

/-!
# Matching signatures with keys

A test of several signatures goes over the keys once and never comes back to
one. A signature takes the first key that it matches, and the signatures after
it look behind that key only. `matchAll_verdict_iff` says that nothing is lost
by that: the test succeeds just when there is any way at all to give each
signature a key of its own in the same order. The reason is an exchange: a
signature that could have a later key may as well have the first one that it
matches, since that leaves more keys for the others.

The program keeps two places, and indexes and subtracts with them. `Places` is
that loop, where every index and every difference is checked. That none of the
checks ever fails rests on the invariant `Places.Sound`: while the loop goes on,
there are at least as many keys left as signatures.

## Results

* `matchAll_verdict_iff`    — success is a strictly increasing choice of keys.
* `Places.loop_eq`          — the loop over places never faults, and is `matchAll`.
* `testSignatures_of_stack` — the operation pushes the verdict of `matchAll`.
* `matching_correct`        — all of it for the test of several signatures.
-/

namespace LegacyScript

-- ---------------------------------------------------------------------------
-- Greedy choice
-- ---------------------------------------------------------------------------

section Greedy

variable {α β : Type} {R : α → β → Prop} {a : α} {b : β} {as : List α} {bs : List β}

theorem sublistForall₂_of_cons_left (h : List.SublistForall₂ R (a :: as) bs) :
    List.SublistForall₂ R as bs := by
  induction bs with
  | nil => cases h
  | cons b bs ih =>
    cases h with
    | cons _ hRest => exact .cons_right hRest
    | cons_right hRest => exact .cons_right (ih hRest)

/-- The exchange: who matches the first candidate may as well take it, and who does
not has to look behind it. -/
theorem sublistForall₂_cons_cons [Decidable (R a b)] :
    List.SublistForall₂ R (a :: as) (b :: bs) ↔
      List.SublistForall₂ R (if R a b then as else a :: as) bs := by
  by_cases hRel : R a b
  · rw [if_pos hRel]
    constructor
    · intro h
      cases h with
      | cons _ hRest => exact hRest
      | cons_right hRest => exact sublistForall₂_of_cons_left hRest
    · intro h
      exact .cons hRel h
  · rw [if_neg hRel]
    constructor
    · intro h
      cases h with
      | cons hFirst _ => exact absurd hFirst hRel
      | cons_right hRest => exact hRest
    · intro h
      exact .cons_right h

theorem length_le_of_sublistForall₂ (h : List.SublistForall₂ R as bs) : as.length ≤ bs.length := by
  obtain ⟨cs, hForall, hSublist⟩ := List.sublistForall₂_iff.mp h
  rw [hForall.length_eq]
  exact hSublist.length_le

/-- Each element has a partner of its own in the same order just when the partners
are chosen by a strictly increasing function on places. -/
theorem sublistForall₂_iff_strictMono :
    List.SublistForall₂ R as bs ↔
      ∃ f : Fin as.length → Fin bs.length, StrictMono f ∧ ∀ i, R as[i] bs[f i] := by
  rw [List.sublistForall₂_iff]
  constructor
  · rintro ⟨cs, hForall, hSublist⟩
    obtain ⟨hLength, hRel⟩ := List.forall₂_iff_get.mp hForall
    obtain ⟨g, hGet⟩ := List.sublist_iff_exists_fin_orderEmbedding_get_eq.mp hSublist
    refine ⟨fun i => g (i.cast hLength), ?_, ?_⟩
    · intro i j hLt
      exact g.strictMono (show i.cast hLength < j.cast hLength from hLt)
    · intro i
      have hPartner := hRel i i.isLt (hLength ▸ i.isLt)
      have hPlace := hGet (i.cast hLength)
      simp only [List.get_eq_getElem, Fin.val_cast] at hPartner hPlace
      rw [hPlace] at hPartner
      exact hPartner
  · rintro ⟨f, hMono, hRel⟩
    -- the partners in the order of the elements
    refine ⟨List.ofFn fun i => bs[f i], ?_, ?_⟩
    · rw [List.forall₂_iff_get]
      refine ⟨List.length_ofFn.symm, ?_⟩
      intro i hLeft hRight
      simpa using hRel ⟨i, hLeft⟩
    · rw [List.sublist_iff_exists_fin_orderEmbedding_get_eq]
      have hLength : (List.ofFn fun i => bs[f i]).length = as.length := List.length_ofFn
      refine ⟨OrderEmbedding.ofStrictMono (fun i => f (i.cast hLength)) ?_, ?_⟩
      · intro i j hLt
        exact hMono (show i.cast hLength < j.cast hLength from hLt)
      · intro i
        rw [List.get_eq_getElem, List.getElem_ofFn]
        rfl

end Greedy

-- ---------------------------------------------------------------------------
-- The verdict
-- ---------------------------------------------------------------------------

namespace Checker

variable {checker : Checker} {flags : Flags} {scriptCode : Script} {signature pubkey : Bytes}
  {signatures pubkeys : List Bytes}

/-- Whether a signature is good for a key. -/
def approves (checker : Checker) (flags : Flags) (scriptCode : Script)
    (signature pubkey : Bytes) : Bool :=
  checker.acceptsSignature signature flags && checker.acceptsPubkey pubkey flags &&
    checker.checkSig signature pubkey scriptCode

/-- To stop at the first no does not change the verdict. -/
theorem askAll_verdict (questions : List Question) :
    (checker.askAll flags questions).verdict = questions.all (checker.answer flags) := by
  induction questions with
  | nil => rfl
  | cons question questions ih =>
    rw [askAll, List.all_cons]
    by_cases hYes : checker.answer flags question = true
    · rw [if_pos hYes, hYes, Bool.true_and]
      exact ih
    · rw [if_neg hYes, Bool.eq_false_of_not_eq_true hYes, Bool.false_and]

theorem consult_verdict :
    (checker.consult flags scriptCode signature pubkey).verdict =
      checker.approves flags scriptCode signature pubkey := by
  rw [consult, askAll_verdict, approves, Bool.and_assoc]
  simp only [List.all_cons, List.all_nil, answer, Bool.and_true]

theorem matchAll_nil : checker.matchAll flags scriptCode [] pubkeys = ⟨true, []⟩ := by
  rw [matchAll]

/-- One round of the matching. -/
theorem matchAll_cons_cons :
    checker.matchAll flags scriptCode (signature :: signatures) (pubkey :: pubkeys) =
      let tried := checker.consult flags scriptCode signature pubkey
      let left := if tried.verdict then signatures else signature :: signatures
      if pubkeys.length < left.length then ⟨false, tried.calls⟩
      else
        let others := checker.matchAll flags scriptCode left pubkeys
        ⟨others.verdict, tried.calls ++ others.calls⟩ := rfl

/-- The matching succeeds just when the signatures have keys of their own in the
same order. -/
theorem matchAll_verdict :
    (checker.matchAll flags scriptCode signatures pubkeys).verdict = true ↔
      List.SublistForall₂ (fun signature pubkey =>
        checker.approves flags scriptCode signature pubkey = true) signatures pubkeys := by
  induction pubkeys generalizing signatures with
  | nil =>
    cases signatures with
    | nil => exact ⟨fun _ => .nil, fun _ => rfl⟩
    | cons signature signatures => exact ⟨nofun, nofun⟩
  | cons pubkey pubkeys ih =>
    cases signatures with
    | nil => exact ⟨fun _ => .nil, fun _ => rfl⟩
    | cons signature signatures =>
      rw [sublistForall₂_cons_cons, ← consult_verdict, matchAll_cons_cons]
      dsimp only
      generalize (if (checker.consult flags scriptCode signature pubkey).verdict = true then
        signatures else signature :: signatures) = left
      by_cases hFew : pubkeys.length < left.length
      · -- too few keys are left for any choice
        rw [if_pos hFew]
        refine ⟨nofun, fun h => ?_⟩
        have hEnough := length_le_of_sublistForall₂ h
        omega
      · rw [if_neg hFew]
        exact ih

/-- **The matching is sound and complete**: it succeeds just when some strictly
increasing choice gives each signature a key that it is good for. -/
theorem matchAll_verdict_iff :
    (checker.matchAll flags scriptCode signatures pubkeys).verdict = true ↔
      ∃ f : Fin signatures.length → Fin pubkeys.length, StrictMono f ∧
        ∀ i, checker.approves flags scriptCode signatures[i] pubkeys[f i] = true := by
  rw [matchAll_verdict, sublistForall₂_iff_strictMono]

end Checker

-- ---------------------------------------------------------------------------
-- The loop over places
-- ---------------------------------------------------------------------------

/-- A difference that must not be below zero. -/
def difference? (a b : Nat) : Option Nat :=
  if b ≤ a then some (a - b) else none

/-- Where the loop stands. -/
structure Places (signatures pubkeys : List Bytes) where
  /-- Whether the keys left may still be enough. -/
  success : Bool
  /-- The place of the first signature without a key. -/
  signature : Nat
  /-- The place of the first key that was not tried. -/
  key : Nat
  /-- Which signatures were tried with which keys. -/
  tried : List (Fin signatures.length × Fin pubkeys.length)

namespace Places

variable {signatures pubkeys : List Bytes}

/-- Where the loop begins: at the first signature and the first key, with none tried. -/
def start : Places signatures pubkeys := ⟨true, 0, 0, []⟩

/-- Whether there is another round. -/
def goesOn (s : Places signatures pubkeys) : Bool :=
  s.success && s.signature < signatures.length

/-- One round. It has no outcome if it would index out of range, or if a
difference would be below zero. -/
def round (checker : Checker) (flags : Flags) (scriptCode : Script)
    (s : Places signatures pubkeys) : Option (Places signatures pubkeys) :=
  if hSignature : s.signature < signatures.length then
    if hKey : s.key < pubkeys.length then do
      let verdict :=
        (checker.consult flags scriptCode signatures[s.signature] pubkeys[s.key]).verdict
      let signature := if verdict then s.signature + 1 else s.signature
      let key := s.key + 1
      let signaturesLeft ← difference? signatures.length signature
      let keysLeft ← difference? pubkeys.length key
      let success := s.success && !decide (keysLeft < signaturesLeft)
      some ⟨success, signature, key, s.tried ++ [(⟨s.signature, hSignature⟩, ⟨s.key, hKey⟩)]⟩
    else none
  else none

variable {checker : Checker} {flags : Flags} {scriptCode : Script}
  {s t : Places signatures pubkeys}

/-- A round only needs both places to be in range. -/
theorem round_eq_some_iff :
    s.round checker flags scriptCode = some t ↔
      ∃ (hSignature : s.signature < signatures.length) (hKey : s.key < pubkeys.length),
        let verdict :=
          (checker.consult flags scriptCode signatures[s.signature] pubkeys[s.key]).verdict
        let signature := if verdict then s.signature + 1 else s.signature
        t = ⟨s.success && !decide (pubkeys.length - (s.key + 1) < signatures.length - signature),
          signature, s.key + 1, s.tried ++ [(⟨s.signature, hSignature⟩, ⟨s.key, hKey⟩)]⟩ := by
  unfold round
  by_cases hSignature : s.signature < signatures.length
  · by_cases hKey : s.key < pubkeys.length
    · have hNext : (if (checker.consult flags scriptCode signatures[s.signature]
          pubkeys[s.key]).verdict then s.signature + 1 else s.signature) ≤ signatures.length := by
        split <;> omega
      simp only [dif_pos hSignature, dif_pos hKey, difference?, if_pos hNext,
        if_pos (Nat.succ_le_of_lt hKey), Option.bind_eq_bind, Option.bind_some, Option.some.injEq]
      constructor
      · intro h
        exact ⟨hSignature, hKey, h.symm⟩
      · rintro ⟨_, _, h⟩
        exact h.symm
    · rw [dif_pos hSignature, dif_neg hKey]
      exact ⟨nofun, fun ⟨_, hInRange, _⟩ => absurd hInRange hKey⟩
  · rw [dif_neg hSignature]
    exact ⟨nofun, fun ⟨hInRange, _⟩ => absurd hInRange hSignature⟩

/-- The rounds up to the end. -/
def loop (checker : Checker) (flags : Flags) (scriptCode : Script)
    (s : Places signatures pubkeys) : Option (Places signatures pubkeys) :=
  if s.goesOn then
    match _ : s.round checker flags scriptCode with
    | none => none
    | some t => loop checker flags scriptCode t
  else some s
termination_by pubkeys.length - s.key
decreasing_by
  -- every round takes a key
  obtain ⟨_, hKey, rfl⟩ := round_eq_some_iff.1 ‹_›
  dsimp only
  omega

theorem loop_of_not_goesOn (h : s.goesOn = false) : s.loop checker flags scriptCode = some s := by
  rw [loop, h]
  rfl

theorem loop_of_round (h : s.goesOn = true) (hRound : s.round checker flags scriptCode = some t) :
    s.loop checker flags scriptCode = t.loop checker flags scriptCode := by
  rw [loop, if_pos h]
  split
  · next hNone => rw [hNone] at hRound; cases hRound
  · next u hSome =>
    rw [hSome] at hRound
    rw [Option.some.inj hRound]

/-- What holds in front of every round. -/
structure Sound (s : Places signatures pubkeys) : Prop where
  signature_le : s.signature ≤ signatures.length
  key_le : s.key ≤ pubkeys.length
  /-- There are at least as many keys left as signatures. -/
  enough : s.success = true → signatures.length + s.key ≤ pubkeys.length + s.signature
  /-- The keys were tried from the first on, each of them once. -/
  keys_eq : s.tried.map (fun place => place.2.val) = List.range s.key

theorem start_sound (h : signatures.length ≤ pubkeys.length) :
    (start : Places signatures pubkeys).Sound where
  signature_le := Nat.zero_le _
  key_le := Nat.zero_le _
  enough := fun _ => h
  keys_eq := rfl

/-- **No round that is begun indexes out of range or takes a difference below zero.** -/
theorem Sound.exists_round (checker : Checker) (flags : Flags) (scriptCode : Script) (h : s.Sound)
    (hGoesOn : s.goesOn = true) :
    ∃ t, s.round checker flags scriptCode = some t := by
  unfold goesOn at hGoesOn
  rw [Bool.and_eq_true, decide_eq_true_iff] at hGoesOn
  obtain ⟨hSuccess, hSignature⟩ := hGoesOn
  have hEnough := h.enough hSuccess
  have hKey : s.key < pubkeys.length := by omega
  exact ⟨_, round_eq_some_iff.2 ⟨hSignature, hKey, rfl⟩⟩

/-- A round keeps the invariant. -/
theorem Sound.round (h : s.Sound) (hRound : s.round checker flags scriptCode = some t) :
    t.Sound := by
  obtain ⟨hSignature, hKey, rfl⟩ := round_eq_some_iff.1 hRound
  refine ⟨?_, hKey, ?_, ?_⟩
  · dsimp only
    split <;> omega
  · intro hSuccess
    simp only [Bool.and_eq_true, Bool.not_eq_true', decide_eq_false_iff_not] at hSuccess ⊢
    have hEnough := h.enough hSuccess.1
    omega
  · dsimp only
    rw [List.map_append, h.keys_eq, List.range_succ]
    rfl

/-- The calls of the rounds. -/
def callsOf (checker : Checker) (flags : Flags) (scriptCode : Script)
    (tried : List (Fin signatures.length × Fin pubkeys.length)) : List Call :=
  tried.flatMap fun place =>
    (checker.consult flags scriptCode signatures[place.1] pubkeys[place.2]).calls

/-- What is left of the matching behind a round. -/
theorem matchAll_of_round (hRound : s.round checker flags scriptCode = some t)
    (hSuccess : s.success = true) :
    ∃ place, t.tried = s.tried ++ [place] ∧
      checker.matchAll flags scriptCode (signatures.drop s.signature) (pubkeys.drop s.key) =
        if t.success then
          let others :=
            checker.matchAll flags scriptCode (signatures.drop t.signature) (pubkeys.drop t.key)
          ⟨others.verdict, callsOf checker flags scriptCode [place] ++ others.calls⟩
        else ⟨false, callsOf checker flags scriptCode [place]⟩ := by
  obtain ⟨hSignature, hKey, rfl⟩ := round_eq_some_iff.1 hRound
  refine ⟨_, rfl, ?_⟩
  rw [List.drop_eq_getElem_cons hSignature, List.drop_eq_getElem_cons hKey,
    Checker.matchAll_cons_cons]
  simp only [hSuccess, callsOf, List.flatMap_singleton, Fin.getElem_fin, Bool.true_and]
  cases (checker.consult flags scriptCode signatures[s.signature] pubkeys[s.key]).verdict with
  | true =>
    by_cases hFew : pubkeys.length - (s.key + 1) < signatures.length - (s.signature + 1)
    · simp [hFew]
    · simp [hFew]
  | false =>
    rw [if_neg Bool.false_ne_true, if_neg Bool.false_ne_true,
      ← List.drop_eq_getElem_cons hSignature]
    by_cases hFew : pubkeys.length - (s.key + 1) < signatures.length - s.signature
    · simp [hFew]
    · simp [hFew]

/-- **From a sound place on the loop comes to its end**, and does what is left of
the matching. -/
theorem loop_eq (checker : Checker) (flags : Flags) (scriptCode : Script) (h : s.Sound)
    (hSuccess : s.success = true) :
    ∃ t more, s.loop checker flags scriptCode = some t ∧ t.Sound ∧ t.tried = s.tried ++ more ∧
      checker.matchAll flags scriptCode (signatures.drop s.signature) (pubkeys.drop s.key) =
        ⟨t.success, callsOf checker flags scriptCode more⟩ := by
  induction hLeft : pubkeys.length - s.key using Nat.strong_induction_on generalizing s with
  | _ left ih =>
    cases hGoesOn : s.goesOn with
    | false =>
      -- all signatures have found their key
      have hDrop : signatures.drop s.signature = [] := by
        rw [goesOn, hSuccess, Bool.true_and, decide_eq_false_iff_not] at hGoesOn
        exact List.drop_eq_nil_of_le (Nat.not_lt.mp hGoesOn)
      refine ⟨s, [], loop_of_not_goesOn hGoesOn, h, (List.append_nil _).symm, ?_⟩
      rw [hDrop, hSuccess, Checker.matchAll_nil]
      rfl
    | true =>
      obtain ⟨t, hRound⟩ := h.exists_round checker flags scriptCode hGoesOn
      have hSound := h.round hRound
      obtain ⟨place, hTried, hMatch⟩ := matchAll_of_round hRound hSuccess
      rw [loop_of_round hGoesOn hRound, hMatch]
      cases hSuccess' : t.success with
      | false =>
        have hStops : t.goesOn = false := by rw [goesOn, hSuccess', Bool.false_and]
        refine ⟨t, [place], loop_of_not_goesOn hStops, hSound, hTried, ?_⟩
        rw [hSuccess']
        rfl
      | true =>
        have hFewer : pubkeys.length - t.key < left := by
          obtain ⟨_, hKey, rfl⟩ := round_eq_some_iff.1 hRound
          dsimp only
          omega
        obtain ⟨last, more, hLoop, hLast, hMore, hOthers⟩ := ih _ hFewer hSound hSuccess' rfl
        refine ⟨last, place :: more, hLoop, hLast, ?_, ?_⟩
        · rw [hMore, hTried, List.append_assoc]
          rfl
        · rw [if_pos rfl, hOthers]
          simp only [callsOf, List.flatMap_cons, List.flatMap_nil, List.append_nil]

end Places

-- ---------------------------------------------------------------------------
-- The test of several signatures
-- ---------------------------------------------------------------------------

namespace StackM

variable {value : Bytes} {s : Stack}

theorem popCount_of_parse {limit n : Nat} {cause : ScriptError}
    (h : Number.parse value Number.maxSize = .ok (n : Int)) (hLimit : n ≤ limit) :
    popCount limit cause (value :: s) = .ok n s := by
  have hRange : 0 ≤ (n : Int) ∧ (n : Int) ≤ limit :=
    ⟨Int.natCast_nonneg n, Int.ofNat_le.mpr hLimit⟩
  unfold popCount
  rw [bind_of_ok (popNumber_of_parse h), if_pos hRange]
  rfl

theorem popMany_append (values : List Bytes) (s : Stack) :
    popMany values.length (values ++ s) = .ok values s := by
  induction values with
  | nil => rfl
  | cons value values ih =>
    rw [List.length_cons, List.cons_append, popMany, bind_of_ok (pop_cons value _), bind_of_ok ih]
    rfl

end StackM

section OnMachine

open StackM MachineM

variable {m : Machine} {signatures pubkeys : List Bytes} {keyCount signatureCount below : Bytes}
  {rest : Stack}

/-- The operation takes the keys, the signatures and one element more, and pushes the
verdict of the matching. -/
theorem testSignatures_of_stack (rules : Rules) (script : Script)
    (hStack : m.stack = keyCount :: (pubkeys ++ signatureCount :: (signatures ++ below :: rest)))
    (hKeyCount : Number.parse keyCount Number.maxSize = .ok (pubkeys.length : Int))
    (hSignatureCount : Number.parse signatureCount Number.maxSize = .ok (signatures.length : Int))
    (hKeys : pubkeys.length ≤ Machine.maxPubkeys) (hSignatures : signatures.length ≤ pubkeys.length)
    (hOps : m.opCount + pubkeys.length ≤ Machine.maxOps) :
    let outcome := rules.checker.matchAll rules.flags
      (signatures.foldl Script.removeSignature (m.coveredCode script)) signatures pubkeys
    testSignatures rules script m = .ok () { m with
      stack := (if outcome.verdict then [1] else []) :: rest
      opCount := m.opCount + pubkeys.length
      calls := m.calls ++ outcome.calls } := by
  intro outcome
  have hCount : popCount Machine.maxPubkeys .pubkeyCount m.stack =
      .ok pubkeys.length (pubkeys ++ signatureCount :: (signatures ++ below :: rest)) := by
    rw [hStack]
    exact popCount_of_parse hKeyCount hKeys
  have hCounted (stack : Stack) : addOps pubkeys.length { m with stack } =
      .ok () { m with stack, opCount := m.opCount + pubkeys.length } := addOps_of_le hOps
  refine (bind_of_ok (onStack_of_ok hCount)).trans ?_
  refine (bind_of_ok (hCounted _)).trans ?_
  refine (bind_of_ok (onStack_of_ok (require_of_le (by simp)))).trans ?_
  refine (bind_of_ok (onStack_of_ok (popMany_append pubkeys _))).trans ?_
  refine (bind_of_ok (onStack_of_ok (popCount_of_parse hSignatureCount hSignatures))).trans ?_
  refine (bind_of_ok (onStack_of_ok (require_of_le (by simp)))).trans ?_
  refine (bind_of_ok (onStack_of_ok (popMany_append signatures _))).trans ?_
  refine (bind_of_ok (onStack_of_ok (pop_cons below rest))).trans ?_
  rfl

/-- **The test of several signatures is right and safe.** With as many keys as it
takes and no more signatures than keys, its loop comes to an end without an
index out of range or a difference below zero, whatever the script code. It
succeeds just when a strictly increasing choice of keys suits all signatures. It
tries the keys from the first on, each at most once, asks the checker about
nothing else, and what it finds is what the operation pushes. -/
theorem matching_correct (rules : Rules) {signatures pubkeys : List Bytes}
    (hKeys : pubkeys.length ≤ Machine.maxPubkeys) (hSignatures : signatures.length ≤ pubkeys.length)
    (scriptCode : Script) :
    ∃ t : Places signatures pubkeys,
      Places.start.loop rules.checker rules.flags scriptCode = some t ∧
      (t.success = true ↔ ∃ f : Fin signatures.length → Fin pubkeys.length, StrictMono f ∧
        ∀ i, rules.checker.approves rules.flags scriptCode signatures[i] pubkeys[f i] = true) ∧
      t.tried.map (fun place => place.2.val) = List.range t.tried.length ∧
      t.tried.length ≤ pubkeys.length ∧
      ∀ (script : Script) (m : Machine) keyCount signatureCount below rest,
        m.stack = keyCount :: (pubkeys ++ signatureCount :: (signatures ++ below :: rest)) →
        Number.parse keyCount Number.maxSize = .ok (pubkeys.length : Int) →
        Number.parse signatureCount Number.maxSize = .ok (signatures.length : Int) →
        m.opCount + pubkeys.length ≤ Machine.maxOps →
        signatures.foldl Script.removeSignature (m.coveredCode script) = scriptCode →
        testSignatures rules script m = .ok () { m with
          stack := (if t.success then [1] else []) :: rest
          opCount := m.opCount + pubkeys.length
          calls := m.calls ++ t.tried.flatMap fun place =>
            (rules.checker.consult rules.flags scriptCode signatures[place.1]
              pubkeys[place.2]).calls } := by
  obtain ⟨t, more, hLoop, hSound, hTried, hMatch⟩ :=
    Places.loop_eq rules.checker rules.flags scriptCode (Places.start_sound hSignatures) rfl
  obtain rfl : t.tried = more := hTried
  change rules.checker.matchAll rules.flags scriptCode signatures pubkeys = _ at hMatch
  have hLength : t.tried.length = t.key := by
    have h := congrArg List.length hSound.keys_eq
    rwa [List.length_map, List.length_range] at h
  refine ⟨t, hLoop, ?_, ?_, ?_, ?_⟩
  · rw [← Checker.matchAll_verdict_iff, hMatch]
  · rw [hLength]
    exact hSound.keys_eq
  · rw [hLength]
    exact hSound.key_le
  · intro script m keyCount signatureCount below rest hStack hKeyCount hSignatureCount hOps hCode
    have hRun := testSignatures_of_stack rules script hStack hKeyCount hSignatureCount hKeys
      hSignatures hOps
    rw [hCode, hMatch] at hRun
    exact hRun

/-- Two signatures find the first and the last of three keys, and the element below
them is gone. -/
theorem matching_twoOfThree :
    let rules : Rules := ⟨{
      checkSig := fun signature pubkey _ => signature == pubkey
      acceptsSignature := fun _ _ => true
      acceptsPubkey := fun _ _ => true }, Flags.none⟩
    let signatures : List Bytes := [[7], [9]]
    let pubkeys : List Bytes := [[7], [8], [9]]
    pubkeys.length ≤ Machine.maxPubkeys ∧ signatures.length ≤ pubkeys.length ∧
      ∃ after, testSignatures rules []
          (Machine.ofStack [[3], [7], [8], [9], [2], [7], [9], [], [5]]) = .ok () after ∧
        after.stack = [[1], [5]] := by
  intro rules signatures pubkeys
  have hKeys : pubkeys.length ≤ Machine.maxPubkeys := by decide
  have hSignatures : signatures.length ≤ pubkeys.length := by decide
  obtain ⟨t, -, hMatch, -, -, hPush⟩ := matching_correct rules hKeys hSignatures []
  have hSuccess : t.success = true := by
    refine hMatch.mpr ⟨![0, 2], ?_, ?_⟩
    · show ∀ i j : Fin 2, i < j → (![0, 2] : Fin 2 → Fin 3) i < (![0, 2] : Fin 2 → Fin 3) j
      decide
    · decide
  have hRun := hPush [] (Machine.ofStack [[3], [7], [8], [9], [2], [7], [9], [], [5]]) [3] [2] []
    [[5]] rfl rfl rfl (by decide) (by decide +kernel)
  refine ⟨hKeys, hSignatures, _, hRun, ?_⟩
  rw [hSuccess]
  rfl

end OnMachine

end LegacyScript
