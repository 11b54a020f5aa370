import LegacyScript.Proofs.Conditional.Nesting
import LegacyScript.Proofs.Script.Items
import LegacyScript.Proofs.Stack.Actions

/-!
# What operations do to the machine

`MachineM.Tame` is for machines what `StackM.Tame` is for stacks: the class of the
actions that are made of basic ones, here with the branches and the alt stack, and
with the books of the machine — the operations counted, the beginning of the script
code, and the calls to the checker. `Operation.run_tame` says of every operation but
`OP_DEPTH` that it is tame, why it may fail, and whether it writes to the books at
all.

## Results

* `Tame.ends`          — causes of failure, and what elements have in common.
* `Tame.framed`        — elements below are neither seen nor touched.
* `Tame.sameBooks`     — most operations leave the books alone.
* `Operation.run_tame`, `runItem_tame` — operations and items are tame.
-/

namespace LegacyScript

open MachineM

-- ---------------------------------------------------------------------------
-- Books and elements
-- ---------------------------------------------------------------------------

/-- The books of a machine are those of an earlier one. -/
structure SameBooks (m₁ m₂ : Machine) : Prop where
  opCount : m₂.opCount = m₁.opCount
  codeStart : m₂.codeStart = m₁.codeStart
  calls : m₂.calls = m₁.calls

theorem SameBooks.refl (m : Machine) : SameBooks m m := ⟨rfl, rfl, rfl⟩

theorem SameBooks.trans {m₁ m₂ m₃ : Machine} (h : SameBooks m₁ m₂) (h' : SameBooks m₂ m₃) :
    SameBooks m₁ m₃ :=
  ⟨h'.opCount.trans h.opCount, h'.codeStart.trans h.codeStart, h'.calls.trans h.calls⟩

namespace Machine

/-- Something holds of all elements on both stacks. -/
structure Elements (good : Bytes → Prop) (m : Machine) : Prop where
  stack : ∀ value ∈ m.stack, good value
  alt : ∀ value ∈ m.alt, good value

theorem elements_of_forall {good : Bytes → Prop} (h : ∀ value, good value) (m : Machine) :
    m.Elements good :=
  ⟨fun value _ => h value, fun value _ => h value⟩

/-- The machine with more elements below those of its main stack. -/
def onto (below : Stack) (m : Machine) : Machine :=
  { m with stack := m.stack ++ below }

end Machine

namespace MachineM

-- ---------------------------------------------------------------------------
-- Tame actions
-- ---------------------------------------------------------------------------

/-- The actions made of basic ones, with what holds of their answers. -/
inductive Tame (script : Script) (e : Effects) : {α : Type} → (α → Prop) → MachineM α → Prop
  | pure {α : Type} {Q : α → Prop} {a : α} (h : Q a) : Tame script e Q (pure a)
  | throw {α : Type} {Q : α → Prop} {cause : ScriptError} (h : cause ∈ e.causes) :
      Tame script e Q (throw cause)
  | onStack {α : Type} {Q : α → Prop} {op : StackM α} (h : StackM.Tame e Q op) :
      Tame script e Q (onStack op)
  | pushAlt {value : Bytes} (h : e.good value) : Tame script e (fun _ => True) (pushAlt value)
  | popAlt (h : .invalidAltStackOperation ∈ e.causes) : Tame script e e.good popAlt
  | openBranch (expected : Bool) (h : .unbalancedConditional ∈ e.causes) :
      Tame script e (fun _ => True) (openBranch expected)
  | flipBranch (h : .unbalancedConditional ∈ e.causes) : Tame script e (fun _ => True) flipBranch
  | closeBranch (h : .unbalancedConditional ∈ e.causes) :
      Tame script e (fun _ => True) closeBranch
  | addOps (count : Nat) (hBooks : e.books) (h : .opCount ∈ e.causes) :
      Tame script e (fun _ => True) (addOps count)
  | setCodeStart (offset : Nat) (hBooks : e.books) :
      Tame script e (fun _ => True) (setCodeStart offset)
  | record (consultation : Consultation) (hBooks : e.books) :
      Tame script e (fun _ => True) (record consultation)
  | covered {α : Type} {Q : α → Prop} (f : Script → MachineM α)
      (hf : ∀ code, Tame script e Q (f code)) :
      Tame script e Q (get >>= fun m => f (m.coveredCode script))
  | whenExecuting {action : MachineM Unit} (h : Tame script e (fun _ => True) action) :
      Tame script e (fun _ => True) (whenExecuting action)
  | bind {α β : Type} {Q : α → Prop} {R : β → Prop} {x : MachineM α} {f : α → MachineM β}
      (hx : Tame script e Q x) (hf : ∀ a, Q a → Tame script e R (f a)) : Tame script e R (x >>= f)

variable {script : Script} {e : Effects} {α : Type} {Q : α → Prop} {x : MachineM α}

/-- **What is known of a tame action comes true**, on a machine of good elements. -/
theorem Tame.ends (h : Tame script e Q x) {m : Machine} (hGood : m.Elements e.good) :
    Ends e Q (Machine.Elements e.good) (x m) := by
  induction h generalizing m with
  | pure h => exact ⟨h, hGood⟩
  | throw h => exact ⟨.inr h, hGood⟩
  | @onStack α Q op h =>
    have hEnds := h.ends hGood.stack
    cases hOp : op m.stack with
    | ok a stack =>
      rw [hOp] at hEnds
      rw [onStack_of_ok hOp]
      exact ⟨hEnds.1, hEnds.2, hGood.alt⟩
    | error cause stack =>
      rw [hOp] at hEnds
      rw [onStack_of_error hOp]
      exact ⟨hEnds.1, hEnds.2, hGood.alt⟩
  | pushAlt h =>
    refine ⟨trivial, hGood.stack, ?_⟩
    intro other hOther
    rcases List.mem_cons.1 hOther with rfl | hBelow
    · exact h
    · exact hGood.alt other hBelow
  | popAlt h =>
    cases hAlt : m.alt with
    | nil =>
      rw [popAlt_of_nil hAlt]
      exact ⟨.inr h, hGood⟩
    | cons value alt =>
      have hAll := hGood.alt
      rw [hAlt] at hAll
      rw [popAlt_of_cons hAlt]
      exact ⟨hAll value (List.mem_cons_self ..), hGood.stack,
        fun v hv => hAll v (List.mem_cons_of_mem _ hv)⟩
  | openBranch expected h =>
    cases hExecuting : m.executing with
    | false =>
      rw [openBranch_of_not_executing hExecuting]
      exact ⟨trivial, hGood.stack, hGood.alt⟩
    | true =>
      cases hStack : m.stack with
      | nil =>
        rw [openBranch_of_nil hExecuting hStack]
        exact ⟨.inr h, hGood⟩
      | cons value stack =>
        have hAll := hGood.stack
        rw [hStack] at hAll
        rw [openBranch_of_cons hExecuting hStack]
        exact ⟨trivial, fun v hv => hAll v (List.mem_cons_of_mem _ hv), hGood.alt⟩
  | flipBranch h =>
    cases hBranches : m.branches with
    | nil =>
      rw [flipBranch_of_nil hBranches]
      exact ⟨.inr h, hGood⟩
    | cons runs outer =>
      rw [flipBranch_of_cons hBranches]
      exact ⟨trivial, hGood.stack, hGood.alt⟩
  | closeBranch h =>
    cases hBranches : m.branches with
    | nil =>
      rw [closeBranch_of_nil hBranches]
      exact ⟨.inr h, hGood⟩
    | cons runs outer =>
      rw [closeBranch_of_cons hBranches]
      exact ⟨trivial, hGood.stack, hGood.alt⟩
  | addOps count hBooks h =>
    rcases Nat.lt_or_ge Machine.maxOps (m.opCount + count) with hLt | hLe
    · rw [addOps_of_lt hLt]
      exact ⟨.inr h, hGood.stack, hGood.alt⟩
    · rw [addOps_of_le hLe]
      exact ⟨trivial, hGood.stack, hGood.alt⟩
  | setCodeStart offset hBooks => exact ⟨trivial, hGood.stack, hGood.alt⟩
  | record consultation hBooks => exact ⟨trivial, hGood.stack, hGood.alt⟩
  | covered f _ ih => exact ih (m.coveredCode script) hGood
  | whenExecuting _ ih =>
    cases hExecuting : m.executing with
    | false =>
      rw [whenExecuting_of_not_executing hExecuting]
      exact ⟨trivial, hGood⟩
    | true =>
      rw [whenExecuting_of_executing hExecuting]
      exact ih hGood
  | bind _ _ ihx ihf => exact (ihx hGood).bind fun a t hAnswer hLeft => ihf a hAnswer hLeft

-- ---------------------------------------------------------------------------
-- Frames
-- ---------------------------------------------------------------------------

variable (below : Stack)

theorem onStack_framed {op : StackM α} (h : Framed (· ++ below) op) :
    Framed (Machine.onto below) (onStack op) := by
  intro m a t hOk
  cases hOp : op m.stack with
  | ok b stack =>
    rw [onStack_of_ok hOp] at hOk
    cases hOk
    have hMore : op (m.onto below).stack = .ok a (stack ++ below) := h m.stack a stack hOp
    rw [onStack_of_ok hMore]
    rfl
  | error cause stack =>
    rw [onStack_of_error hOp] at hOk
    cases hOk

theorem popAlt_framed : Framed (Machine.onto below) popAlt := by
  intro m value t h
  cases hAlt : m.alt with
  | nil =>
    rw [popAlt_of_nil hAlt] at h
    cases h
  | cons top alt =>
    rw [popAlt_of_cons hAlt] at h
    cases h
    exact popAlt_of_cons (m := m.onto below) hAlt

theorem openBranch_framed (expected : Bool) :
    Framed (Machine.onto below) (openBranch expected) := by
  intro m u t h
  cases hExecuting : m.executing with
  | false =>
    rw [openBranch_of_not_executing hExecuting] at h
    cases h
    exact openBranch_of_not_executing (m := m.onto below) hExecuting
  | true =>
    cases hStack : m.stack with
    | nil =>
      rw [openBranch_of_nil hExecuting hStack] at h
      cases h
    | cons value stack =>
      rw [openBranch_of_cons hExecuting hStack] at h
      cases h
      have hMore : (m.onto below).stack = value :: (stack ++ below) :=
        congrArg (· ++ below) hStack
      exact openBranch_of_cons (m := m.onto below) hExecuting hMore

theorem flipBranch_framed : Framed (Machine.onto below) flipBranch := by
  intro m u t h
  cases hBranches : m.branches with
  | nil =>
    rw [flipBranch_of_nil hBranches] at h
    cases h
  | cons runs outer =>
    rw [flipBranch_of_cons hBranches] at h
    cases h
    exact flipBranch_of_cons (m := m.onto below) hBranches

theorem closeBranch_framed : Framed (Machine.onto below) closeBranch := by
  intro m u t h
  cases hBranches : m.branches with
  | nil =>
    rw [closeBranch_of_nil hBranches] at h
    cases h
  | cons runs outer =>
    rw [closeBranch_of_cons hBranches] at h
    cases h
    exact closeBranch_of_cons (m := m.onto below) hBranches

theorem addOps_framed (count : Nat) : Framed (Machine.onto below) (addOps count) := by
  intro m u t h
  rcases Nat.lt_or_ge Machine.maxOps (m.opCount + count) with hLt | hLe
  · rw [addOps_of_lt hLt] at h
    cases h
  · rw [addOps_of_le hLe] at h
    cases h
    exact addOps_of_le (m := m.onto below) hLe

theorem whenExecuting_framed {action : MachineM Unit}
    (h : Framed (Machine.onto below) action) :
    Framed (Machine.onto below) (whenExecuting action) := by
  intro m u t hOk
  cases hExecuting : m.executing with
  | false =>
    rw [whenExecuting_of_not_executing hExecuting] at hOk
    cases hOk
    exact whenExecuting_of_not_executing (m := m.onto below) hExecuting
  | true =>
    rw [whenExecuting_of_executing hExecuting] at hOk
    rw [whenExecuting_of_executing (m := m.onto below) hExecuting]
    exact h m u t hOk

/-- **Tame actions neither see nor touch what lies below** the elements that they need. -/
theorem Tame.framed (h : Tame script e Q x) (hGood : ∀ value, e.good value) :
    Framed (Machine.onto below) x := by
  induction h with
  | pure h =>
    intro m a t h
    cases h
    rfl
  | throw h =>
    intro m a t h
    cases h
  | onStack h => exact onStack_framed below (h.framed hGood below)
  | popAlt h => exact popAlt_framed below
  | openBranch expected h => exact openBranch_framed below expected
  | flipBranch h => exact flipBranch_framed below
  | closeBranch h => exact closeBranch_framed below
  | addOps count hBooks h => exact addOps_framed below count
  | pushAlt h | setCodeStart offset hBooks | record consultation hBooks =>
    intro m a t h
    cases h
    rfl
  | covered f _ ih => exact fun m => ih (m.coveredCode script) m
  | whenExecuting _ ih => exact whenExecuting_framed below ih
  | bind hx _ ihx ihf =>
    refine ihx.bind fun m a t hFirst => ihf a ?_
    have hEnds := hx.ends (Machine.elements_of_forall hGood m)
    rw [hFirst] at hEnds
    exact hEnds.1

-- ---------------------------------------------------------------------------
-- Books
-- ---------------------------------------------------------------------------

theorem openBranch_sameBooks (expected : Bool) (m : Machine) :
    SameBooks m (leaves (openBranch expected) m) := by
  cases hExecuting : m.executing with
  | false =>
    rw [leaves_of_ok (openBranch_of_not_executing hExecuting)]
    exact ⟨rfl, rfl, rfl⟩
  | true =>
    cases hStack : m.stack with
    | nil =>
      rw [leaves_of_error (openBranch_of_nil hExecuting hStack)]
      exact .refl m
    | cons value stack =>
      rw [leaves_of_ok (openBranch_of_cons hExecuting hStack)]
      exact ⟨rfl, rfl, rfl⟩

theorem flipBranch_sameBooks (m : Machine) : SameBooks m (leaves flipBranch m) := by
  cases hBranches : m.branches with
  | nil =>
    rw [leaves_of_error (flipBranch_of_nil hBranches)]
    exact .refl m
  | cons runs outer =>
    rw [leaves_of_ok (flipBranch_of_cons hBranches)]
    exact ⟨rfl, rfl, rfl⟩

theorem closeBranch_sameBooks (m : Machine) : SameBooks m (leaves closeBranch m) := by
  cases hBranches : m.branches with
  | nil =>
    rw [leaves_of_error (closeBranch_of_nil hBranches)]
    exact .refl m
  | cons runs outer =>
    rw [leaves_of_ok (closeBranch_of_cons hBranches)]
    exact ⟨rfl, rfl, rfl⟩

theorem popAlt_sameBooks (m : Machine) : SameBooks m (leaves popAlt m) := by
  cases hAlt : m.alt with
  | nil =>
    rw [leaves_of_error (popAlt_of_nil hAlt)]
    exact .refl m
  | cons value alt =>
    rw [leaves_of_ok (popAlt_of_cons hAlt)]
    exact ⟨rfl, rfl, rfl⟩

theorem onStack_sameBooks (op : StackM α) (m : Machine) :
    SameBooks m (leaves (onStack op) m) := by
  rw [leaves_onStack]
  exact ⟨rfl, rfl, rfl⟩

/-- **Tame actions leave the books alone**, unless they are known to write to them. -/
theorem Tame.sameBooks (h : Tame script e Q x) (hGood : ∀ value, e.good value)
    (hBooks : ¬e.books) (m : Machine) : SameBooks m (leaves x m) := by
  induction h generalizing m with
  | pure h => exact .refl m
  | throw h => exact .refl m
  | onStack h => exact onStack_sameBooks _ m
  | pushAlt h => exact ⟨rfl, rfl, rfl⟩
  | popAlt h => exact popAlt_sameBooks m
  | openBranch expected h => exact openBranch_sameBooks expected m
  | flipBranch h => exact flipBranch_sameBooks m
  | closeBranch h => exact closeBranch_sameBooks m
  | addOps count h => exact absurd h hBooks
  | setCodeStart offset h => exact absurd h hBooks
  | record consultation h => exact absurd h hBooks
  | covered f _ ih => exact ih (m.coveredCode script) m
  | @whenExecuting action _ ih =>
    cases hExecuting : m.executing with
    | false =>
      rw [leaves_of_ok (whenExecuting_of_not_executing hExecuting)]
      exact .refl m
    | true =>
      rw [leaves, whenExecuting_of_executing hExecuting]
      exact ih m
  | @bind α β Q R x f hx _ ihx ihf =>
    -- the second line is tame for answers such as the first one gives
    have hFirst := ihx m
    have hEnds := hx.ends (Machine.elements_of_forall hGood m)
    cases hEnd : x m with
    | ok a t =>
      rw [hEnd] at hEnds
      rw [leaves_of_ok hEnd] at hFirst
      rw [leaves, bind_of_ok hEnd]
      exact hFirst.trans (ihf a hEnds.1 t)
    | error cause t =>
      rw [leaves_of_error hEnd] at hFirst
      rw [leaves_of_error (bind_of_error hEnd)]
      exact hFirst

end MachineM

-- ---------------------------------------------------------------------------
-- The operations
-- ---------------------------------------------------------------------------

/-- Whether a test asks the checker. -/
def Test.asksChecker : Test → Bool
  | .checkSig | .checkMultiSig => true
  | .equal | .numEqual => false

/-- Why a test may fail, apart from a want of elements. -/
def Test.causes : Test → List ScriptError
  | .equal | .checkSig => []
  | .numEqual => [.numOverflow]
  | .checkMultiSig => [.numOverflow, .pubkeyCount, .opCount, .sigCount]

namespace Operation

/-- The test that an operation makes, alone or with the demand that it succeed. -/
def test? : Operation → Option Test
  | .test t | .testVerify t => some t
  | _ => none

/-- Whether an operation writes to the books of the machine. -/
def writesBooks (operation : Operation) : Bool :=
  operation == .codeSeparator || operation.test?.any Test.asksChecker

/-- Why an operation may fail, apart from a want of elements. -/
def causes : Operation → List ScriptError
  | .constant _ | .nop | .toAltStack | .digest _ | .codeSeparator => []
  | .stack op => op.causes
  | .unary _ | .binary _ | .within => [.numOverflow]
  | .verify => [.verify]
  | .opReturn => [.opReturn]
  | .fromAltStack => [.invalidAltStackOperation]
  | .test t => t.causes
  | .testVerify t => t.cause :: t.causes
  | .conditional .opVerIf | .conditional .opVerNotIf => [.badOpcode]
  | .conditional _ => [.unbalancedConditional]
  | .disabled => [.disabledOpcode]
  | .pushBytes | .reserved => [.badOpcode]

end Operation

section Operations

open StackM

variable {rules : Rules} {script : Script} {e : Effects}

/-- The test of one signature asks the checker once. -/
theorem testSignature_tame (hClosed : Closed e.good) (hBooks : e.books) :
    MachineM.Tame script e (fun _ => True) (testSignature rules script) := by
  refine .bind (.onStack (.require 2)) fun _ _ => .bind (.onStack .pop) fun pubkey _ =>
    .bind (.onStack .pop) fun signature _ => ?_
  exact .covered
    (fun code => record (rules.checker.consult rules.flags (code.removeSignature signature)
      signature pubkey) >>= fun verdict => onStack (pushBool verdict))
    fun code => .bind (.record _ hBooks) fun verdict _ => .onStack (pushBool_tame hClosed verdict)

theorem testSignatures_tame (hClosed : Closed e.good) (hBooks : e.books)
    (hCauses : Test.checkMultiSig.causes ⊆ e.causes) :
    MachineM.Tame script e (fun _ => True) (testSignatures rules script) := by
  have hOverflow : .numOverflow ∈ e.causes := hCauses (by decide)
  refine .bind (.onStack (popCount_tame hOverflow (hCauses (by decide)))) fun keyCount _ =>
    .bind (.addOps keyCount hBooks (hCauses (by decide))) fun _ _ =>
    .bind (.onStack (.require _)) fun _ _ => .bind (.onStack (popMany_tame _)) fun pubkeys _ =>
    .bind (.onStack (popCount_tame hOverflow (hCauses (by decide)))) fun signatureCount _ =>
    .bind (.onStack (.require _)) fun _ _ => .bind (.onStack (popMany_tame _)) fun signatures _ =>
    .bind (.onStack .pop) fun _ _ => ?_
  exact .covered
    (fun code => record (rules.checker.matchAll rules.flags
      (signatures.foldl Script.removeSignature code) signatures pubkeys) >>=
        fun verdict => onStack (pushBool verdict))
    fun code => .bind (.record _ hBooks) fun verdict _ => .onStack (pushBool_tame hClosed verdict)

theorem Test.run_tame (t : Test) (hClosed : Closed e.good) (hBooks : t.asksChecker → e.books)
    (hCauses : t.causes ⊆ e.causes) :
    MachineM.Tame script e (fun _ => True) (t.run rules script) := by
  cases t with
  | equal => exact .onStack (testEqual_tame hClosed)
  | numEqual => exact .onStack (BinaryOp.run_tame hClosed .numEqual (hCauses (by decide)))
  | checkSig => exact testSignature_tame hClosed (hBooks rfl)
  | checkMultiSig => exact testSignatures_tame hClosed (hBooks rfl) hCauses

/-- **All operations are tame**, but the one that looks at the height of the stack. -/
theorem Operation.run_tame (operation : Operation) (stop : Nat) (hClosed : Closed e.good)
    (hBooks : operation.writesBooks → e.books) (hCauses : operation.causes ⊆ e.causes)
    (hConstant : ∀ n, operation = .constant n → n.natAbs < 2 ^ 32)
    (hDepth : operation ≠ .stack .depth) :
    MachineM.Tame script e (fun _ => True) (operation.run rules script stop) := by
  cases operation with
  | constant n =>
    exact .whenExecuting (.onStack (pushNumber_tame hClosed (hConstant n rfl)))
  | nop => exact .whenExecuting (.pure trivial)
  | verify => exact .whenExecuting (.onStack (verify_tame (hCauses (by decide))))
  | opReturn => exact .whenExecuting (.throw (hCauses (by decide)))
  | toAltStack =>
    exact .whenExecuting (.bind (.onStack .pop) fun value hValue => .pushAlt hValue)
  | fromAltStack =>
    exact .whenExecuting (.bind (.popAlt (hCauses (by decide))) fun value hValue =>
      .onStack (.push hValue))
  | stack op =>
    have hOp : op ≠ .depth := fun hEq => hDepth (congrArg Operation.stack hEq)
    exact .whenExecuting (.onStack (op.run_tame hClosed hOp hCauses))
  | unary op => exact .whenExecuting (.onStack (op.run_tame hClosed (hCauses (.head _))))
  | binary op => exact .whenExecuting (.onStack (op.run_tame hClosed (hCauses (.head _))))
  | within => exact .whenExecuting (.onStack (within_tame hClosed (hCauses (by decide))))
  | digest d => exact .whenExecuting (.onStack (d.run_tame hClosed))
  | test t =>
    exact .whenExecuting (t.run_tame hClosed (fun h => hBooks (by simpa [writesBooks, test?]))
      hCauses)
  | testVerify t =>
    -- the first cause belongs to the demand, the others to the test
    have hTest := List.subset_of_cons_subset hCauses
    refine .whenExecuting (.bind (t.run_tame hClosed ?_ hTest) fun _ _ => ?_)
    · exact fun h => hBooks (by simpa [writesBooks, test?])
    · exact .onStack (verify_tame (hCauses (.head _)))
  | conditional c =>
    cases c with
    | opIf => exact .openBranch true (hCauses (by decide))
    | opNotIf => exact .openBranch false (hCauses (by decide))
    | opVerIf => exact .throw (hCauses (by decide))
    | opVerNotIf => exact .throw (hCauses (by decide))
    | opElse => exact .flipBranch (hCauses (by decide))
    | opEndIf => exact .closeBranch (hCauses (by decide))
  | codeSeparator => exact .whenExecuting (.setCodeStart stop (hBooks rfl))
  | disabled => exact .throw (hCauses (by decide))
  | pushBytes => exact .whenExecuting (.throw (hCauses (by decide)))
  | reserved => exact .whenExecuting (.throw (hCauses (by decide)))

/-- The one operation that is not tame pushes the height of the stack, whatever it is. -/
theorem Operation.run_depth (rules : Rules) (script : Script) (stop : Nat) (m : Machine) :
    (Operation.stack .depth).run rules script stop m = .ok () { m with
      stack := if m.executing then Number.encode m.stack.length :: m.stack else m.stack } := by
  cases hExecuting : m.executing with
  | true => exact whenExecuting_of_executing hExecuting
  | false => exact whenExecuting_of_not_executing hExecuting

end Operations

-- ---------------------------------------------------------------------------
-- Items
-- ---------------------------------------------------------------------------

/-- Operations push small numbers only. -/
theorem Opcode.natAbs_lt_of_constant {code : Opcode} {n : Int}
    (h : code.operation? = some (.constant n)) : n.natAbs < 2 ^ 32 := by
  have hRows : rows.all (fun row => match row.operation with
      | .constant n => decide (n.natAbs < 2 ^ 32)
      | _ => true) = true := by decide
  obtain ⟨row, hRow, -, hOperation⟩ := exists_row h (by simp)
  have hSmall := List.all_eq_true.1 hRows row hRow
  rw [hOperation] at hSmall
  exact of_decide_eq_true hSmall

/-- Whoever writes to the books takes from the budget. -/
theorem Opcode.isCounted_of_writesBooks {code : Opcode} {operation : Operation}
    (h : code.operation? = some operation) (hBooks : operation.writesBooks = true) :
    code.isCounted = true := by
  have hRows : rows.all (fun row => !row.operation.writesBooks || row.opcode.isCounted) = true := by
    decide
  obtain ⟨row, hRow, rfl, rfl⟩ := exists_row h fun hPush => by
    rw [hPush] at hBooks
    cases hBooks
  have hCounted := List.all_eq_true.1 hRows row hRow
  rw [hBooks] at hCounted
  exact hCounted

/-- Why an item may fail, apart from a want of elements. -/
def Item.causes (item : Item) : List ScriptError :=
  match item.content with
  | .error _ => [.malformedPush]
  | .ok (.push _) => [.pushSize]
  | .ok (.op code) =>
    match code.operation? with
    | none => [.unknownOpcode]
    | some operation => .opCount :: operation.causes

section Items

variable {rules : Rules} {script : Script} {e : Effects} {item : Item}

theorem Item.operation?_of_op {code : Opcode} (h : item.content = .ok (.op code)) :
    item.operation? = code.operation? := by
  simp only [operation?, h]

theorem Item.exists_code_of_operation? {operation : Operation}
    (h : item.operation? = some operation) :
    ∃ code, item.content = .ok (.op code) ∧ code.operation? = some operation := by
  unfold operation? at h
  split at h
  · next code hContent => exact ⟨code, hContent, h⟩
  · cases h

theorem countOpcode_tame (code : Opcode) (hBooks : e.books) (hCause : .opCount ∈ e.causes) :
    MachineM.Tame script e (fun _ => True) (countOpcode code) := by
  unfold countOpcode
  split
  · exact .addOps 1 hBooks hCause
  · exact .pure trivial

/-- **All items are tame**, but the one that looks at the height of the stack. -/
theorem runItem_tame (hClosed : Closed e.good)
    (hPush : ∀ data, data.length ≤ Script.maxElementSize → e.good data) (hBooks : e.books)
    (hCauses : item.causes ⊆ e.causes) (hDepth : item.operation? ≠ some (.stack .depth)) :
    MachineM.Tame script e (fun _ => True) (runItem rules script item) := by
  unfold Item.causes at hCauses
  cases hContent : item.content with
  | error cause =>
    rw [hContent] at hCauses
    rw [runItem_of_error hContent]
    exact .throw (hCauses (.head _))
  | ok instruction =>
    cases instruction with
    | push data =>
      rw [hContent] at hCauses
      rw [runItem_of_push hContent]
      split
      · exact .throw (hCauses (.head _))
      · next hSize => exact .whenExecuting (.onStack (.push (hPush data (Nat.not_lt.1 hSize))))
    | op code =>
      rw [Item.operation?_of_op hContent] at hDepth
      rw [hContent] at hCauses
      dsimp only at hCauses
      cases hOperation : code.operation? with
      | none =>
        rw [hOperation] at hCauses
        rw [runItem_of_unknown hContent hOperation]
        exact .throw (hCauses (.head _))
      | some operation =>
        rw [hOperation] at hCauses hDepth
        rw [runItem_of_operation hContent hOperation]
        refine .bind (countOpcode_tame code hBooks (hCauses (.head _))) fun _ _ => ?_
        refine operation.run_tame item.stop hClosed (fun _ => hBooks)
          (List.subset_of_cons_subset hCauses) ?_ ?_
        · rintro n rfl
          exact Opcode.natAbs_lt_of_constant hOperation
        · rintro rfl
          exact hDepth rfl

end Items

end LegacyScript
