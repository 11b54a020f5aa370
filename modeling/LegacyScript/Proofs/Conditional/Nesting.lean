import LegacyScript.Proofs.Machine.Trace
import Mathlib.Algebra.BigOperators.Group.List.Basic
import Mathlib.Algebra.Ring.Int.Defs
import Mathlib.Data.List.Infix
import Mathlib.Tactic.Common

/-!
# Nesting of conditionals

`OP_IF` and `OP_NOTIF` open a conditional, `OP_ENDIF` closes it, and each
`OP_ELSE` between them separates two arms of it. Whether this comes out is a
static matter: it shows on the items of a script, without running them.

Items are read as steps of a level, +1 where a conditional opens and -1 where
one closes. `WellNested` says that the level never goes below zero, that there
is an open conditional at every separator, and that none is left open. The
level may start from conditionals that are open already, so that what is left
of a well-nested sequence behind any front is well nested in the level that the
front has come to (`WellNestedFrom.tail`).
-/

namespace LegacyScript

-- ---------------------------------------------------------------------------
-- Roles
-- ---------------------------------------------------------------------------

/-- The part that an item plays in the nesting of conditionals. -/
inductive Role
  /-- None; the conditionals that are always wrong are among these. -/
  | plain
  /-- Opens a conditional whose first arm runs if the condition reads as `expected`. -/
  | opens (expected : Bool)
  | separates
  | closes
  deriving DecidableEq

/-- How an item of some role changes the level of nesting. -/
def Role.levelChange : Role → Int
  | .opens _ => 1
  | .closes => -1
  | .plain | .separates => 0

/-- The part that an operation plays. -/
def Operation.role : Operation → Role
  | .conditional .opIf => .opens true
  | .conditional .opNotIf => .opens false
  | .conditional .opElse => .separates
  | .conditional .opEndIf => .closes
  | _ => .plain

namespace Item

/-- What the opcode of an item stands for, where the item is not a push and its
opcode is known. -/
def operation? (item : Item) : Option Operation :=
  match item.content with
  | .ok (.op code) => code.operation?
  | _ => none

/-- The part that an item plays. -/
def role (item : Item) : Role :=
  match item.operation? with
  | some operation => operation.role
  | none => .plain

theorem role_of_operation {item : Item} {code : Opcode} {operation : Operation}
    (hContent : item.content = .ok (.op code)) (hOperation : code.operation? = some operation) :
    item.role = operation.role := by
  simp only [role, operation?, hContent, hOperation]

/-- An item with a role is an opcode that stands for something of that role. -/
theorem exists_operation_of_role_ne {item : Item} (hRole : item.role ≠ .plain) :
    ∃ code operation, item.content = .ok (.op code) ∧ code.operation? = some operation ∧
      operation.role = item.role := by
  cases hContent : item.content with
  | error e => simp [role, operation?, hContent] at hRole
  | ok instruction =>
    cases instruction with
    | push data => simp [role, operation?, hContent] at hRole
    | op code =>
      cases hOperation : code.operation? with
      | none => simp [role, operation?, hContent, hOperation] at hRole
      | some operation =>
        exact ⟨code, operation, rfl, hOperation, (role_of_operation hContent hOperation).symm⟩

/-- How an item changes the level of nesting. -/
def levelChange (item : Item) : Int :=
  item.role.levelChange

/-- The level behind some items, in front of which `outer` conditionals are open. -/
def levelFrom (outer : Nat) (items : List Item) : Int :=
  outer + (items.map levelChange).sum

@[simp] theorem levelFrom_nil (outer : Nat) : levelFrom outer [] = outer := by
  simp [levelFrom]

@[simp] theorem levelFrom_append (outer : Nat) (front items : List Item) :
    levelFrom outer (front ++ items) = levelFrom outer front + (items.map levelChange).sum := by
  simp [levelFrom, Int.add_assoc]

end Item

-- ---------------------------------------------------------------------------
-- Roles on the machine
-- ---------------------------------------------------------------------------

/-- What a role does to the flags of the machine. -/
def Role.action : Role → MachineM Unit
  | .plain => pure ()
  | .opens expected => MachineM.openBranch expected
  | .separates => MachineM.flipBranch
  | .closes => MachineM.closeBranch

/-- What is wrong with an operation wherever it stands. -/
def Operation.check : Operation → MachineM Unit
  | .disabled => throw .disabledOpcode
  | .conditional .opVerIf | .conditional .opVerNotIf => throw .badOpcode
  | _ => pure ()

/-- The work of an operation that has passed its checks and ends at offset `stop`. -/
def Operation.act (rules : Rules) (script : Script) (stop : Nat) : Operation → MachineM Unit
  | .codeSeparator => MachineM.setCodeStart stop
  | operation => operation.execute rules script

namespace Operation

variable {rules : Rules} {script : Script} {stop : Nat} {operation : Operation} {m₁ m₂ : Machine}

theorem act_plain (operation : Operation) (stop : Nat) :
    Plain script (operation.act rules script stop) := by
  unfold act
  split
  · exact .setCodeStart stop
  · exact Operation.execute_plain _

/-- The checks leave the machine alone, and find out what is always wrong. -/
theorem check_eq_ok_iff :
    operation.check m₁ = .ok () m₂ ↔ m₁ = m₂ ∧ operation ≠ .disabled ∧
      operation ≠ .conditional .opVerIf ∧ operation ≠ .conditional .opVerNotIf := by
  cases operation with
  | disabled => exact ⟨nofun, fun h => absurd rfl h.2.1⟩
  | conditional c =>
    cases c with
    | opVerIf => exact ⟨nofun, fun h => absurd rfl h.2.2.1⟩
    | opVerNotIf => exact ⟨nofun, fun h => absurd rfl h.2.2.2⟩
    | _ => simp [check, pure, EStateM.pure]
  | _ => simp [check, pure, EStateM.pure]

/-- An operation without a role is checked in every branch, and does its work where
the branch runs. -/
theorem run_of_role_eq (hRole : operation.role = .plain) :
    operation.run rules script stop =
      operation.check >>= fun _ => MachineM.whenExecuting (operation.act rules script stop) := by
  cases operation with
  | conditional c =>
    cases c with
    | opVerIf => rfl
    | opVerNotIf => rfl
    | opIf => cases hRole
    | opNotIf => cases hRole
    | opElse => cases hRole
    | opEndIf => cases hRole
  | _ => rfl

/-- An operation with a role does what the role does, and nothing else. -/
theorem run_of_role_ne (hRole : operation.role ≠ .plain) :
    operation.run rules script stop = operation.role.action := by
  cases operation with
  | conditional c =>
    cases c with
    | opIf => rfl
    | opNotIf => rfl
    | opElse => rfl
    | opEndIf => rfl
    | opVerIf => exact absurd rfl hRole
    | opVerNotIf => exact absurd rfl hRole
  | _ => exact absurd rfl hRole

end Operation

open Item

-- ---------------------------------------------------------------------------
-- Nested fronts
-- ---------------------------------------------------------------------------

/-- No conditional is closed or separated that was not opened. -/
structure NestedFrom (outer : Nat) (items : List Item) : Prop where
  nonneg : ∀ front, front <+: items → 0 ≤ levelFrom outer front
  inside : ∀ front item, front ++ [item] <+: items → item.role = .separates →
    1 ≤ levelFrom outer front

/-- Moreover, every conditional is closed in the end. -/
structure WellNestedFrom (outer : Nat) (items : List Item) : Prop
    extends NestedFrom outer items where
  closed : levelFrom outer items = 0

/-- The nesting level starts at zero, never goes below, is at least one at every
separator, and ends at zero. -/
abbrev WellNested (items : List Item) : Prop := WellNestedFrom 0 items

theorem nestedFrom_nil (outer : Nat) : NestedFrom outer [] where
  nonneg := by
    intro front hFront
    rw [List.prefix_nil.mp hFront, levelFrom_nil]
    omega
  inside := by
    intro front item hFront
    simp at hFront

/-- A front stays nested when its next item neither closes nor separates what is
not open. -/
theorem NestedFrom.append_singleton {outer : Nat} {items : List Item} {item : Item}
    (h : NestedFrom outer items) (hLevel : 0 ≤ levelFrom outer (items ++ [item]))
    (hInside : item.role = .separates → 1 ≤ levelFrom outer items) :
    NestedFrom outer (items ++ [item]) where
  nonneg := by
    intro front hFront
    rcases List.prefix_concat_iff.mp hFront with rfl | hFront
    · exact hLevel
    · exact h.nonneg front hFront
  inside := by
    intro front last hFront hRole
    rcases List.prefix_concat_iff.mp hFront with hEq | hFront
    · obtain ⟨rfl, hLast⟩ := List.append_inj' hEq rfl
      obtain rfl := List.singleton_injective hLast
      exact hInside hRole
    · exact h.inside front last hFront hRole

theorem wellNestedFrom_nil_iff {outer : Nat} : WellNestedFrom outer [] ↔ outer = 0 := by
  constructor
  · intro h
    have hClosed := h.closed
    rw [levelFrom_nil] at hClosed
    omega
  · rintro rfl
    exact ⟨nestedFrom_nil 0, levelFrom_nil 0⟩

/-- The level behind a front is the same, counted from in front of its first item or
from behind. -/
theorem levelFrom_cons {outer inner : Nat} {item : Item} (hInner : inner = outer + item.levelChange)
    (front : List Item) : levelFrom outer (item :: front) = levelFrom inner front := by
  rw [levelFrom, levelFrom, List.map_cons, List.sum_cons, hInner, Int.add_assoc]

/-- Behind its first item, a nested sequence is nested in the level that the item leads to,
and a separator comes first only inside of a conditional. -/
theorem NestedFrom.tail {outer : Nat} {item : Item} {items : List Item}
    (h : NestedFrom outer (item :: items)) :
    (∃ inner : Nat, inner = outer + item.levelChange ∧ NestedFrom inner items) ∧
      (item.role = .separates → 1 ≤ outer) := by
  have hFirst : 0 ≤ levelFrom outer [item] :=
    h.nonneg [item] (List.prefix_append [item] items)
  rw [levelFrom, List.map_singleton, List.sum_singleton] at hFirst
  obtain ⟨inner, hInner⟩ := Int.eq_ofNat_of_zero_le hFirst
  have hLevel := levelFrom_cons hInner.symm
  refine ⟨⟨inner, hInner.symm, ?_, ?_⟩, ?_⟩
  · intro front hFront
    rw [← hLevel]
    exact h.nonneg _ ((List.prefix_cons_inj item).mpr hFront)
  · intro front last hFront hRole
    rw [← hLevel]
    exact h.inside (item :: front) last ((List.prefix_cons_inj item).mpr hFront) hRole
  · intro hRole
    have hOuter := h.inside [] item (List.prefix_append [item] items) hRole
    rw [levelFrom_nil] at hOuter
    omega

/-- What is closed in the end is closed behind the first item as well. -/
theorem WellNestedFrom.tail {outer : Nat} {item : Item} {items : List Item}
    (h : WellNestedFrom outer (item :: items)) :
    (∃ inner : Nat, inner = outer + item.levelChange ∧ WellNestedFrom inner items) ∧
      (item.role = .separates → 1 ≤ outer) := by
  obtain ⟨⟨inner, hInner, hNested⟩, hInside⟩ := h.toNestedFrom.tail
  have hClosed : levelFrom inner items = 0 := by
    rw [← levelFrom_cons hInner]
    exact h.closed
  exact ⟨⟨inner, hInner, hNested, hClosed⟩, hInside⟩

/-- The converse: an item goes in front of what is well nested in its level. -/
theorem WellNestedFrom.cons {outer inner : Nat} {item : Item} {items : List Item}
    (h : WellNestedFrom inner items) (hInner : inner = outer + item.levelChange)
    (hInside : item.role = .separates → 1 ≤ outer) : WellNestedFrom outer (item :: items) := by
  have hLevel := levelFrom_cons hInner
  refine ⟨⟨?_, ?_⟩, ?_⟩
  · intro front hFront
    rcases List.prefix_cons_iff.mp hFront with rfl | ⟨tail, rfl, hTail⟩
    · rw [levelFrom_nil]
      omega
    · rw [hLevel]
      exact h.nonneg tail hTail
  · intro front last hFront hRole
    cases front with
    | nil =>
      obtain rfl : last = item := by simpa using hFront
      rw [levelFrom_nil]
      exact_mod_cast hInside hRole
    | cons first tail =>
      obtain ⟨rfl, hTail⟩ := List.cons_prefix_cons.mp hFront
      rw [hLevel]
      exact h.inside tail last hTail hRole
  · rw [hLevel]
    exact h.closed

-- ---------------------------------------------------------------------------
-- Checking
-- ---------------------------------------------------------------------------

/-- Walks over items with the number of open conditionals. -/
def nestsFrom : Nat → List Item → Bool
  | outer, [] => outer == 0
  | outer, item :: items =>
    match item.role, outer with
    | .plain, outer => nestsFrom outer items
    | .opens _, outer => nestsFrom (outer + 1) items
    | .separates, outer + 1 => nestsFrom (outer + 1) items
    | .closes, outer + 1 => nestsFrom outer items
    | .separates, 0 | .closes, 0 => false

/-- **The walk finds out whether items are well nested.** -/
theorem nestsFrom_iff {outer : Nat} {items : List Item} :
    nestsFrom outer items = true ↔ WellNestedFrom outer items := by
  induction items generalizing outer with
  | nil => rw [nestsFrom, wellNestedFrom_nil_iff, beq_iff_eq]
  | cons item items ih =>
    -- only the level behind the item is left to compare with
    have hCons : ∀ {inner : Nat}, (inner : Int) = outer + item.levelChange →
        (item.role = .separates → 1 ≤ outer) →
        (nestsFrom inner items = true ↔ WellNestedFrom outer (item :: items)) := by
      intro inner hInner hInside
      rw [ih]
      constructor
      · intro h
        exact h.cons hInner hInside
      · intro h
        obtain ⟨⟨level, hLevel, hTail⟩, -⟩ := h.tail
        obtain rfl : level = inner := by omega
        exact hTail
    have hLevel : item.levelChange = item.role.levelChange := rfl
    unfold nestsFrom
    split
    · next outer hRole =>
      exact hCons (by rw [hLevel, hRole]; simp [Role.levelChange]) (by simp [hRole])
    · next outer expected hRole =>
      exact hCons (by rw [hLevel, hRole]; simp [Role.levelChange]) (by simp [hRole])
    · next outer hRole =>
      exact hCons (by rw [hLevel, hRole]; simp [Role.levelChange]) (by simp)
    · next outer hRole =>
      exact hCons (by rw [hLevel, hRole]; simp [Role.levelChange]) (by simp)
    · next hRole =>
      simp only [Bool.false_eq_true, false_iff]
      intro h
      have hOuter := h.tail.2 hRole
      omega
    · next hRole =>
      simp only [Bool.false_eq_true, false_iff]
      intro h
      obtain ⟨⟨level, hLevel, -⟩, -⟩ := h.tail
      simp only [levelChange, hRole, Role.levelChange] at hLevel
      omega

instance (outer : Nat) (items : List Item) : Decidable (WellNestedFrom outer items) :=
  decidable_of_iff _ nestsFrom_iff

end LegacyScript
