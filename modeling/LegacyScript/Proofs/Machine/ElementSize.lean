import LegacyScript.Proofs.Machine.Bounds
import LegacyScript.Proofs.Machine.Visits
import LegacyScript.Verify

/-!
# The size of elements

Only pushes of the script are checked for their size. That no other element on the stacks
is larger is due to what operations can make at all: numbers of five bytes at most,
digests, and copies of what is there already. So 520 bytes bound the elements on both
stacks throughout a run, if they bound those that it begins with.

`OP_DEPTH` makes a number of the height of the stack. In front of all items but the first
that height is within the limit; in front of the first it is that of the initial stack,
which is taken to be a machine word.

## Results

* `closed_small`     — what operations make is small.
* `step_small`       — a step keeps elements small, also when it fails.
* `elements_small`   — so does a whole run, and both runs of a verification.
-/

namespace LegacyScript

open MachineM

variable {rules : Rules} {script : Script} {m now : Machine} {item : Item} {past : List Visit}

-- ---------------------------------------------------------------------------
-- Small elements
-- ---------------------------------------------------------------------------

/-- An element is within the size that may be pushed. -/
def Small (value : Bytes) : Prop := value.length ≤ 520

theorem small_encode {n : Int} (h : n.natAbs < 2 ^ 64) : Small (Number.encode n) := by
  have hPow : (2 : Nat) ^ 64 ≤ 2 ^ (8 * 8 + 7) := Nat.pow_le_pow_right (by decide) (by decide)
  have hLength : (Number.encode n).length ≤ 8 + 1 :=
    (Number.length_encode_le_iff n 8).2 (Nat.lt_of_lt_of_le h hPow)
  exact Nat.le_trans hLength (by decide)

/-- **What operations make of small elements is small.** -/
theorem closed_small : Closed Small where
  number n h := by
    refine small_encode (Nat.lt_trans h ?_)
    exact Nat.pow_lt_pow_right (by decide) (by decide)
  size value h := by
    unfold Small at h
    refine small_encode ?_
    rw [Int.natAbs_natCast]
    omega
  digest d message := by
    unfold Small
    rw [Digest.length_apply]
    cases d <;> decide

-- ---------------------------------------------------------------------------
-- One item
-- ---------------------------------------------------------------------------

/-- The height of the stack is a small element, if it is a machine word. -/
theorem runItem_depth_small (hItem : item.operation? = some (.stack .depth))
    (hLength : m.stack.length < 2 ^ 64) (hSmall : m.Elements Small) :
    (leaves (runItem rules script item) m).Elements Small := by
  obtain ⟨code, hContent, hOperation⟩ := Item.exists_code_of_operation? hItem
  obtain ⟨opCount, hCount⟩ := leaves_countOpcode code m
  rw [runItem_of_operation hContent hOperation]
  rcases leaves_bind (x := countOpcode code) (s := m) fun _ =>
    (Operation.stack .depth).run rules script item.stop with hLeft | ⟨u, hLeft⟩
  · rw [hLeft, hCount]
    exact ⟨hSmall.stack, hSmall.alt⟩
  · rw [hLeft, hCount, leaves_of_ok (Operation.run_depth ..)]
    refine ⟨?_, hSmall.alt⟩
    dsimp only
    -- nothing is pushed where the branch does not run
    split
    · intro value hValue
      rcases List.mem_cons.1 hValue with rfl | hBelow
      · exact small_encode hLength
      · exact hSmall.stack value hBelow
    · exact hSmall.stack

/-- **A step keeps elements small**, also when it fails. -/
theorem step_small (hLength : m.stack.length < 2 ^ 64) (hSmall : m.Elements Small) :
    (leaves (step rules script item) m).Elements Small := by
  rw [leaves_step]
  by_cases hDepth : item.operation? = some (.stack .depth)
  · exact runItem_depth_small hDepth hLength hSmall
  · let small : Effects := ⟨Small, item.causes, True⟩
    have hTame : MachineM.Tame script small (fun _ => True) (runItem rules script item) :=
      runItem_tame closed_small (fun _ hPush => hPush) trivial (List.Subset.refl _) hDepth
    exact (hTame.ends hSmall).leaves

-- ---------------------------------------------------------------------------
-- Whole runs
-- ---------------------------------------------------------------------------

/-- The elements in front of every item are small, and the height of the stack is a
machine word. -/
theorem Visited.small (h : Visited rules script m past now) (hLength : m.stack.length < 2 ^ 64)
    (hSmall : m.Elements Small) : now.stack.length < 2 ^ 64 ∧ now.Elements Small := by
  induction h with
  | start => exact ⟨hLength, hSmall⟩
  | @next past visit _ _ hOk ih =>
    -- whatever the height was before, it has been checked now
    have hDepth := (step_eq_ok_iff.1 (Visit.result_eq_ok_iff.1 hOk)).2
    have hHeight : (visit.after rules script).stack.length ≤ 1000 :=
      Nat.le_trans (Nat.le_add_right _ _) hDepth
    exact ⟨by omega, step_small ih.1 ih.2⟩

/-- Something holds of every machine that a run finds in front of an item or leaves behind
one, and of the machine that it leaves in the end. -/
structure Script.Throughout (P : Machine → Prop) (rules : Rules) (m : Machine) (script : Script) :
    Prop where
  before : ∀ visit ∈ script.visits rules m, P visit.before
  after : ∀ visit ∈ script.visits rules m, P (visit.after rules script)
  left : P (script.run rules m).machine

theorem throughout_small (rules : Rules) (script : Script) (hLength : m.stack.length < 2 ^ 64)
    (hStack : ∀ value ∈ m.stack, Small value) :
    script.Throughout (Machine.Elements Small) rules m := by
  have hLoad : m.load.Elements Small := ⟨hStack, nofun⟩
  have hVisit : ∀ visit ∈ script.visits rules m,
      visit.before.Elements Small ∧ (visit.after rules script).Elements Small := by
    intro visit hMem
    obtain ⟨front, rest, hVisits⟩ := List.append_of_mem hMem
    obtain ⟨hHeight, hBefore⟩ := (visited_of_visits hVisits).2.small hLength hLoad
    exact ⟨hBefore, step_small hHeight hBefore⟩
  refine ⟨fun visit hMem => (hVisit visit hMem).1, fun visit hMem => (hVisit visit hMem).2, ?_⟩
  obtain ⟨-, -, hEnding⟩ := run_visits rules m script
  cases hEnding with
  | passed hVisited _ => exact (hVisited.small hLength hLoad).2
  | failed past last cause _ _ hVisited _ hMachine _ =>
    obtain ⟨hHeight, hBefore⟩ := hVisited.small hLength hLoad
    rw [hMachine]
    exact step_small hHeight hBefore

/-- **Elements stay small.** If all elements of the main stack are 520 bytes long at most,
so are those of both stacks behind every item of a run, and where the run ends or fails. It
is so throughout both runs of a verification, the first of which begins with nothing on the
stack and the second with what the first leaves. -/
theorem elements_small :
    (∀ (rules : Rules) (m : Machine) (script : Script), m.stack.length < 2 ^ 64 →
      (∀ value ∈ m.stack, value.length ≤ 520) →
        script.Throughout (Machine.Elements fun value => value.length ≤ 520) rules m) ∧
    ∀ (rules : Rules) (unlocking locking : Script),
      let first := unlocking.run rules (Machine.ofStack [])
      unlocking.Throughout (Machine.Elements fun value => value.length ≤ 520) rules
          (Machine.ofStack []) ∧
        locking.Throughout (Machine.Elements fun value => value.length ≤ 520) rules
          first.machine := by
  refine ⟨fun rules m script hLength hStack => throughout_small rules script hLength hStack, ?_⟩
  intro rules unlocking locking first
  have hEmpty : (Machine.ofStack []).stack.length ≤ Machine.maxDepth := Nat.zero_le _
  have hFirst : unlocking.Throughout (Machine.Elements Small) rules (Machine.ofStack []) :=
    throughout_small rules unlocking (by decide) nofun
  have hHeight : first.machine.stack.length ≤ Machine.maxDepth + 3 :=
    (length_stack_le rules (Machine.ofStack []) unlocking hEmpty).1
  have hWord : first.machine.stack.length < 2 ^ 64 := Nat.lt_of_le_of_lt hHeight (by decide)
  exact ⟨hFirst, throughout_small rules locking hWord hFirst.left.stack⟩

/-- An element of the greatest size is copied, hashed and measured next to the height of the
stack, and the item that fails leaves what is small, too. -/
theorem elements_small_longest :
    let rules : Rules := ⟨{ checkSig := fun _ _ _ => false }, Flags.none⟩
    let m := Machine.ofStack [List.replicate 520 0xff]
    let script : Script := [0x76, 0x82, 0x74, 0x6b, 0x93]
    let report := script.run rules m
    m.stack.length < 2 ^ 64 ∧ (∀ value ∈ m.stack, value.length ≤ 520) ∧
      report.result = .error .numOverflow ∧
      report.machine.Elements fun value => value.length ≤ 520 := by
  intro rules m script report
  have hLength : m.stack.length < 2 ^ 64 := by decide
  have hStack : ∀ value ∈ m.stack, value.length ≤ 520 := by decide +kernel
  have hFails : report.result = .error .numOverflow := by decide +kernel
  exact ⟨hLength, hStack, hFails, (elements_small.1 rules m script hLength hStack).left⟩

end LegacyScript
