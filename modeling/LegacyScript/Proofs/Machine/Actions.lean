import LegacyScript.Machine.Execute
import Mathlib.Tactic.Common

/-!
# What executed operations are made of

Some sixty operations end up in a handful of basic actions: they work on the
main stack, move an element to or from the alt stack, take from the budget of
operations, read the script code or mark its beginning, and put calls on record.
`Plain` is the class of actions that are made of these, and
`Operation.execute_plain` says that every operation is one. What holds of all
basic actions then holds of every operation, by one induction on `Plain`.

## Results

* `Plain.branchFree` — the branch flags are neither read nor changed.
* `Plain.leaves_rel` — the machine that is left is related to the machine before
  by any preorder that the basic actions respect.
* `Plain.opCount_le` — the budget is never given back.
-/

namespace LegacyScript

open MachineM

-- ---------------------------------------------------------------------------
-- The state that is left
-- ---------------------------------------------------------------------------

section Leaves

variable {State α β : Type} {x : EStateM ScriptError State α} {s t : State}

/-- The state that an action leaves, whether it answers or fails. -/
def leaves (x : EStateM ScriptError State α) (s : State) : State :=
  match x s with
  | .ok _ t => t
  | .error _ t => t

/-- What an action answers, or why it fails. -/
def answer (x : EStateM ScriptError State α) (s : State) : Except ScriptError α :=
  match x s with
  | .ok a _ => .ok a
  | .error cause _ => .error cause

theorem leaves_of_ok {a : α} (h : x s = .ok a t) : leaves x s = t := by
  simp only [leaves, h]

theorem leaves_of_error {cause : ScriptError} (h : x s = .error cause t) : leaves x s = t := by
  simp only [leaves, h]

theorem answer_of_ok {a : α} (h : x s = .ok a t) : answer x s = .ok a := by
  simp only [answer, h]

theorem answer_of_error {cause : ScriptError} (h : x s = .error cause t) :
    answer x s = .error cause := by
  simp only [answer, h]

/-- Lines answer when each of them does. -/
theorem bind_eq_ok_iff {f : α → EStateM ScriptError State β} {b : β} :
    (x >>= f) s = .ok b t ↔ ∃ a u, x s = .ok a u ∧ f a u = .ok b t := by
  constructor
  · intro h
    cases hx : x s with
    | ok a u =>
      rw [bind_of_ok hx] at h
      exact ⟨a, u, rfl, h⟩
    | error cause u =>
      rw [bind_of_error hx] at h
      cases h
  · rintro ⟨a, u, hx, hf⟩
    rw [bind_of_ok hx, hf]

/-- The second line goes on from what the first leaves, or is not run at all. -/
theorem leaves_bind (f : α → EStateM ScriptError State β) :
    leaves (x >>= f) s = leaves x s ∨ ∃ a, leaves (x >>= f) s = leaves (f a) (leaves x s) := by
  cases hx : x s with
  | ok a t =>
    right
    refine ⟨a, ?_⟩
    rw [leaves_of_ok hx, leaves, bind_of_ok hx]
    rfl
  | error cause t =>
    left
    rw [leaves_of_error hx, leaves_of_error (bind_of_error hx)]

end Leaves

-- ---------------------------------------------------------------------------
-- Opcodes
-- ---------------------------------------------------------------------------

/-- What an opcode does where it is executed. The opcodes that steer execution have no
place here, and neither have the bytes that are no opcodes. -/
def Opcode.execute (rules : Rules) (script : Script) (code : Opcode) : MachineM Unit :=
  match code.operation? with
  | some operation => operation.execute rules script
  | none => throw .badOpcode

theorem Opcode.execute_of_operation {rules : Rules} {script : Script} {code : Opcode}
    {operation : Operation} (h : code.operation? = some operation) :
    code.execute rules script = operation.execute rules script := by
  rw [execute, h]

-- ---------------------------------------------------------------------------
-- Basic actions
-- ---------------------------------------------------------------------------

section Basic

variable {m : Machine} {count : Nat} {value : Bytes} {stack alt : Stack} {expected runs : Bool}
  {outer : List Bool}

theorem addOps_of_le (h : m.opCount + count ≤ Machine.maxOps) :
    addOps count m = .ok () { m with opCount := m.opCount + count } := by
  simp [addOps, Nat.not_lt.2 h]

theorem addOps_of_lt (h : Machine.maxOps < m.opCount + count) :
    addOps count m = .error .opCount { m with opCount := m.opCount + count } := by
  simp [addOps, h]

theorem popAlt_of_nil (h : m.alt = []) : popAlt m = .error .invalidAltStackOperation m := by
  simp [popAlt, h]

theorem popAlt_of_cons (h : m.alt = value :: alt) : popAlt m = .ok value { m with alt } := by
  simp [popAlt, h]

theorem openBranch_of_not_executing (h : m.executing = false) :
    openBranch expected m = .ok () { m with branches := false :: m.branches } := by
  simp [openBranch, h]

theorem openBranch_of_nil (h : m.executing = true) (hStack : m.stack = []) :
    openBranch expected m = .error .unbalancedConditional m := by
  simp [openBranch, h, hStack]

theorem openBranch_of_cons (h : m.executing = true) (hStack : m.stack = value :: stack) :
    openBranch expected m =
      .ok () { m with stack, branches := (Number.truthy value == expected) :: m.branches } := by
  simp [openBranch, h, hStack]

theorem flipBranch_of_nil (h : m.branches = []) :
    flipBranch m = .error .unbalancedConditional m := by
  simp [flipBranch, h]

theorem flipBranch_of_cons (h : m.branches = runs :: outer) :
    flipBranch m = .ok () { m with branches := (!runs) :: outer } := by
  simp [flipBranch, h]

theorem closeBranch_of_nil (h : m.branches = []) :
    closeBranch m = .error .unbalancedConditional m := by
  simp [closeBranch, h]

theorem closeBranch_of_cons (h : m.branches = runs :: outer) :
    closeBranch m = .ok () { m with branches := outer } := by
  simp [closeBranch, h]

/-- Operations are counted whether or not they fit the budget. -/
theorem leaves_addOps (m : Machine) (count : Nat) :
    leaves (addOps count) m = { m with opCount := m.opCount + count } := by
  rcases Nat.lt_or_ge Machine.maxOps (m.opCount + count) with hLt | hLe
  · exact leaves_of_error (addOps_of_lt hLt)
  · exact leaves_of_ok (addOps_of_le hLe)

theorem leaves_onStack {α : Type} (op : StackM α) (m : Machine) :
    leaves (onStack op) m = { m with stack := leaves op m.stack } := by
  cases h : op m.stack with
  | ok a stack => rw [leaves_of_ok (onStack_of_ok h), leaves_of_ok h]
  | error cause stack => rw [leaves_of_error (onStack_of_error h), leaves_of_error h]

end Basic

-- ---------------------------------------------------------------------------
-- Plain actions
-- ---------------------------------------------------------------------------

/-- The actions made of those that a basic one can be: no basic action but
reading the script code looks at more than it changes, and none looks at the
branch flags. -/
inductive Plain (script : Script) : {α : Type} → MachineM α → Prop
  | pure {α : Type} (a : α) : Plain script (pure a : MachineM α)
  | throw {α : Type} (cause : ScriptError) : Plain script (throw cause : MachineM α)
  | onStack {α : Type} (op : StackM α) : Plain script (onStack op)
  | addOps (count : Nat) : Plain script (addOps count)
  | pushAlt (value : Bytes) : Plain script (pushAlt value)
  | popAlt : Plain script popAlt
  | record (consultation : Consultation) : Plain script (record consultation)
  | setCodeStart (offset : Nat) : Plain script (setCodeStart offset)
  | covered {α : Type} (f : Script → MachineM α) (hf : ∀ code, Plain script (f code)) :
      Plain script (get >>= fun m => f (m.coveredCode script))
  | bind {α β : Type} {x : MachineM α} {f : α → MachineM β} (hx : Plain script x)
      (hf : ∀ a, Plain script (f a)) : Plain script (x >>= f)

variable {rules : Rules} {script : Script} {α : Type} {x : MachineM α}

theorem testSignature_plain : Plain script (testSignature rules script) := by
  refine .bind (.onStack _) fun _ => .bind (.onStack _) fun pubkey =>
    .bind (.onStack _) fun signature => ?_
  exact .covered
    (fun code => record (rules.checker.consult rules.flags (code.removeSignature signature)
      signature pubkey) >>= fun verdict => onStack (StackM.pushBool verdict))
    fun code => .bind (.record _) fun verdict => .onStack _

theorem testSignatures_plain : Plain script (testSignatures rules script) := by
  refine .bind (.onStack _) fun keyCount => .bind (.addOps _) fun _ =>
    .bind (.onStack _) fun _ => .bind (.onStack _) fun pubkeys =>
    .bind (.onStack _) fun signatureCount => .bind (.onStack _) fun _ =>
    .bind (.onStack _) fun signatures => .bind (.onStack _) fun _ => ?_
  exact .covered
    (fun code => record (rules.checker.matchAll rules.flags
      (signatures.foldl Script.removeSignature code) signatures pubkeys) >>=
        fun verdict => onStack (StackM.pushBool verdict))
    fun code => .bind (.record _) fun verdict => .onStack _

theorem Test.run_plain (t : Test) : Plain script (t.run rules script) := by
  cases t with
  | equal => exact .onStack _
  | numEqual => exact .onStack _
  | checkSig => exact testSignature_plain
  | checkMultiSig => exact testSignatures_plain

/-- **Every operation is a plain action.** -/
theorem Operation.execute_plain (op : Operation) : Plain script (op.execute rules script) := by
  cases op with
  | constant n => exact .onStack (StackM.pushNumber n)
  | nop => exact .pure _
  | verify => exact .onStack _
  | opReturn => exact .throw _
  | toAltStack => exact .bind (.onStack _) fun _ => .pushAlt _
  | fromAltStack => exact .bind .popAlt fun _ => .onStack _
  | stack op => exact .onStack _
  | unary op => exact .onStack _
  | binary op => exact .onStack _
  | within => exact .onStack _
  | digest d => exact .onStack _
  | test t => exact t.run_plain
  | testVerify t => exact .bind t.run_plain fun _ => .onStack _
  | pushBytes => exact .throw _
  | conditional c => exact .throw _
  | codeSeparator => exact .throw _
  | disabled => exact .throw _
  | reserved => exact .throw _

-- ---------------------------------------------------------------------------
-- Branch flags
-- ---------------------------------------------------------------------------

/-- The machine with other branch flags. -/
def Machine.withBranches (m : Machine) (branches : List Bool) : Machine :=
  { m with branches }

/-- The same outcome, with other branch flags on the machine that is left. -/
def withBranches (branches : List Bool) :
    EStateM.Result ScriptError Machine α → EStateM.Result ScriptError Machine α
  | .ok a m => .ok a (m.withBranches branches)
  | .error cause m => .error cause (m.withBranches branches)

/-- An action that does not look at the branch flags and leaves them alone. -/
def BranchFree (x : MachineM α) : Prop :=
  ∀ m branches, x (m.withBranches branches) = withBranches branches (x m)

theorem BranchFree.bind {β : Type} {f : α → MachineM β} (hx : BranchFree x)
    (hf : ∀ a, BranchFree (f a)) : BranchFree (x >>= f) := by
  intro m branches
  have hFront := hx m branches
  cases h : x m with
  | ok a t =>
    rw [h] at hFront
    rw [bind_of_ok h, bind_of_ok hFront]
    exact hf a t branches
  | error cause t =>
    rw [h] at hFront
    rw [bind_of_error h, bind_of_error hFront]
    rfl

/-- In particular the flags are those from before. -/
theorem BranchFree.branches_eq (hx : BranchFree x) {m after : Machine} {a : α}
    (h : x m = .ok a after) : after.branches = m.branches := by
  have hSame : x m = withBranches m.branches (x m) := hx m m.branches
  rw [h] at hSame
  have hAfter : after = after.withBranches m.branches := (EStateM.Result.ok.inj hSame).2
  rw [hAfter]
  rfl

theorem onStack_branchFree (op : StackM α) : BranchFree (onStack op) := by
  intro m branches
  cases h : op m.stack with
  | ok a stack =>
    rw [onStack_of_ok h, onStack_of_ok (m := m.withBranches branches) h]
    rfl
  | error cause stack =>
    rw [onStack_of_error h, onStack_of_error (m := m.withBranches branches) h]
    rfl

theorem addOps_branchFree (count : Nat) : BranchFree (addOps count) := by
  intro m branches
  rcases Nat.lt_or_ge Machine.maxOps (m.opCount + count) with hLt | hLe
  · rw [addOps_of_lt hLt, addOps_of_lt (m := m.withBranches branches) hLt]
    rfl
  · rw [addOps_of_le hLe, addOps_of_le (m := m.withBranches branches) hLe]
    rfl

theorem popAlt_branchFree : BranchFree popAlt := by
  intro m branches
  cases h : m.alt with
  | nil =>
    rw [popAlt_of_nil h, popAlt_of_nil (m := m.withBranches branches) h]
    rfl
  | cons value alt =>
    rw [popAlt_of_cons h, popAlt_of_cons (m := m.withBranches branches) h]
    rfl

/-- **Plain actions do not look at the branch flags, and leave them alone.** -/
theorem Plain.branchFree (h : Plain script x) : BranchFree x := by
  induction h with
  | pure a => exact fun _ _ => rfl
  | throw cause => exact fun _ _ => rfl
  | onStack op => exact onStack_branchFree op
  | addOps count => exact addOps_branchFree count
  | pushAlt value => exact fun _ _ => rfl
  | popAlt => exact popAlt_branchFree
  | record consultation => exact fun _ _ => rfl
  | setCodeStart offset => exact fun _ _ => rfl
  | covered f _ ih => exact fun m branches => ih (m.coveredCode script) m branches
  | bind _ _ ihx ihf => exact ihx.bind ihf

-- ---------------------------------------------------------------------------
-- Preorders on machines
-- ---------------------------------------------------------------------------

/-- A relation between the machine before an action and the machine it leaves
that every basic action respects. -/
structure Respected (R : Machine → Machine → Prop) : Prop where
  refl (m : Machine) : R m m
  trans {m₁ m₂ m₃ : Machine} : R m₁ m₂ → R m₂ m₃ → R m₁ m₃
  stack (m : Machine) (stack : Stack) : R m { m with stack }
  alt (m : Machine) (alt : Stack) : R m { m with alt }
  addOps (m : Machine) (count : Nat) : R m { m with opCount := m.opCount + count }
  record (m : Machine) (calls : List Call) : R m { m with calls := m.calls ++ calls }
  codeStart (m : Machine) (codeStart : Nat) : R m { m with codeStart }

/-- **What basic actions respect, plain actions respect.** -/
theorem Plain.leaves_rel {R : Machine → Machine → Prop} (hR : Respected R) (h : Plain script x)
    (m : Machine) : R m (leaves x m) := by
  induction h generalizing m with
  | pure a => exact hR.refl m
  | throw cause => exact hR.refl m
  | onStack op =>
    rw [leaves_onStack]
    exact hR.stack m _
  | addOps count =>
    rw [leaves_addOps]
    exact hR.addOps m count
  | pushAlt value => exact hR.alt m (value :: m.alt)
  | popAlt =>
    cases h : m.alt with
    | nil =>
      rw [leaves_of_error (popAlt_of_nil h)]
      exact hR.refl m
    | cons value alt =>
      rw [leaves_of_ok (popAlt_of_cons h)]
      exact hR.alt m alt
  | record consultation => exact hR.record m consultation.calls
  | setCodeStart offset => exact hR.codeStart m offset
  | covered f _ ih => exact ih (m.coveredCode script) m
  | @bind α β x f _ _ ihx ihf =>
    rcases leaves_bind (x := x) (s := m) f with hLeft | ⟨a, hLeft⟩
    · rw [hLeft]
      exact ihx m
    · rw [hLeft]
      exact hR.trans (ihx m) (ihf a _)

/-- The budget is never given back. -/
theorem Plain.opCount_le (h : Plain script x) (m : Machine) :
    m.opCount ≤ (leaves x m).opCount :=
  h.leaves_rel (R := fun m₁ m₂ => m₁.opCount ≤ m₂.opCount)
    { refl := fun _ => Nat.le_refl _
      trans := Nat.le_trans
      stack := fun _ _ => Nat.le_refl _
      alt := fun _ _ => Nat.le_refl _
      addOps := fun _ _ => Nat.le_add_right _ _
      record := fun _ _ => Nat.le_refl _
      codeStart := fun _ _ => Nat.le_refl _ } m

end LegacyScript
