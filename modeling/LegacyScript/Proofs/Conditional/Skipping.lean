import LegacyScript.Proofs.Conditional.Evaluation
import LegacyScript.Proofs.Script.Encoding

/-!
# Code that is passed over

In a branch that does not run, instructions are read and checked, and that is all. Inner
conditionals open, turn and close flags of their own, and may even turn one to true; but as
long as they nest, the flags that were there before stay where they are, and one of those is
false. The invariant is therefore that the flags are some of the sequence's own, as many as
its level of nesting, in front of those from before (`exists_step_eq`).

What the checks find is a matter of the bytes and of how many operations were counted before
(`Piece.fault?`). So the first fault of a sequence can be told without running it
(`Piece.firstFault?`), whatever the stacks, the flags and the checker are.

## Results

* `Item.Decoded.content_eq`   — an item means what its own bytes mean.
* `Item.Decoded.check_eq`     — what its checks find.
* `NestedFrom.passedOver`     — a run over items that are passed over.
* `skipped_inert`             — all of this together.
-/

namespace LegacyScript

open MachineM Item

-- ---------------------------------------------------------------------------
-- Faults of bytes
-- ---------------------------------------------------------------------------

/-- What is wrong with an operation wherever it stands. -/
def Operation.fault? : Operation → Option ScriptError
  | .disabled => some .disabledOpcode
  | .conditional .opVerIf | .conditional .opVerNotIf => some .badOpcode
  | _ => none

/-- The bytes of one item. -/
abbrev Piece := Bytes

namespace Piece

/-- What the bytes of an item mean on their own. -/
def meaning : Piece → Except DecodeError Instruction
  | [] => .error .earlyEnd
  | code :: operand => (Instruction.read code operand).content

/-- How many operations the bytes of an item take from the budget. -/
def cost (piece : Piece) : Nat :=
  match meaning piece with
  | .ok (.op code) => if code.isKnown && code.isCounted then 1 else 0
  | _ => 0

/-- What is wrong with the bytes of an item wherever they stand, behind so many operations
that were counted. -/
def fault? (opCount : Nat) (piece : Piece) : Option ScriptError :=
  match meaning piece with
  | .error _ => some .malformedPush
  | .ok (.push data) => if Script.maxElementSize < data.length then some .pushSize else none
  | .ok (.op code) =>
    match code.operation? with
    | none => some .unknownOpcode
    | some operation =>
      if code.isCounted && Machine.maxOps < opCount + 1 then some .opCount
      else operation.fault?

/-- The first piece of a sequence that is wrong, and what is wrong with it. -/
def firstFault? (opCount : Nat) : List Piece → Option (Nat × ScriptError)
  | [] => none
  | piece :: pieces =>
    match fault? opCount piece with
    | some cause => some (0, cause)
    | none => (firstFault? (opCount + cost piece) pieces).map fun (i, cause) => (i + 1, cause)

variable {opCount i : Nat} {piece : Piece} {pieces : List Piece} {cause : ScriptError}

theorem firstFault?_cons_of_some (h : fault? opCount piece = some cause) :
    firstFault? opCount (piece :: pieces) = some (0, cause) := by
  rw [firstFault?, h]

theorem firstFault?_cons_of_none (h : fault? opCount piece = none) :
    firstFault? opCount (piece :: pieces) =
      (firstFault? (opCount + cost piece) pieces).map fun (i, cause) => (i + 1, cause) := by
  rw [firstFault?, h]

/-- The first fault is one of a piece of the sequence. -/
theorem exists_fault_of_firstFault? (h : firstFault? opCount pieces = some (i, cause)) :
    ∃ piece counted, pieces[i]? = some piece ∧ fault? counted piece = some cause := by
  induction pieces generalizing opCount i with
  | nil => cases h
  | cons piece pieces ih =>
    cases hFault : fault? opCount piece with
    | some first =>
      rw [firstFault?_cons_of_some hFault] at h
      cases h
      exact ⟨piece, opCount, rfl, hFault⟩
    | none =>
      rw [firstFault?_cons_of_none hFault] at h
      obtain ⟨⟨j, later⟩, hLater, hEq⟩ := Option.map_eq_some_iff.1 h
      cases hEq
      exact ih hLater

theorem operation_fault?_cases {code : Opcode} {operation : Operation}
    (hOperation : code.operation? = some operation) (h : operation.fault? = some cause) :
    cause = .disabledOpcode ∨ cause = .badOpcode ∧ (code = 0x65 ∨ code = 0x66) := by
  have hPush : operation ≠ .pushBytes := by
    rintro rfl
    cases h
  obtain ⟨row, hRow, rfl, rfl⟩ := Opcode.exists_row hOperation hPush
  have hTable : ∀ row ∈ Opcode.rows, row.operation.fault? = none ∨
      row.operation.fault? = some .disabledOpcode ∨
        row.operation.fault? = some .badOpcode ∧ (row.opcode = 0x65 ∨ row.opcode = 0x66) := by
    decide
  have hFault := hTable row hRow
  rw [h] at hFault
  simpa using hFault

/-- **What can be wrong with bytes wherever they stand.** -/
theorem fault?_cases (h : fault? opCount piece = some cause) :
    cause ∈ [.pushSize, .malformedPush, .unknownOpcode, .opCount, .disabledOpcode,
        ScriptError.badOpcode] ∧
      (cause = .badOpcode →
        meaning piece = .ok (.op 0x65) ∨ meaning piece = .ok (.op 0x66)) := by
  unfold fault? at h
  split at h
  · cases h
    exact ⟨by decide, nofun⟩
  · split_ifs at h
    cases h
    exact ⟨by decide, nofun⟩
  · next code hMeaning =>
    split at h
    · cases h
      exact ⟨by decide, nofun⟩
    · next operation hOperation =>
      split at h
      · cases h
        exact ⟨by decide, nofun⟩
      · rcases operation_fault?_cases hOperation h with rfl | ⟨rfl, rfl | rfl⟩
        · exact ⟨by decide, nofun⟩
        · exact ⟨by decide, fun _ => .inl hMeaning⟩
        · exact ⟨by decide, fun _ => .inr hMeaning⟩

end Piece

-- ---------------------------------------------------------------------------
-- Checks of items
-- ---------------------------------------------------------------------------

theorem countOpcode_of_not_exceeded {code : Opcode} {m : Machine}
    (h : ¬(code.isCounted && decide (Machine.maxOps < m.opCount + 1)) = true) :
    countOpcode code m =
      .ok () { m with opCount := m.opCount + if code.isCounted then 1 else 0 } := by
  unfold countOpcode
  cases hCounted : code.isCounted with
  | false => rfl
  | true =>
    have hLe : m.opCount + 1 ≤ Machine.maxOps := by simpa [hCounted] using h
    exact addOps_of_le hLe

theorem countOpcode_of_exceeded {code : Opcode} {m : Machine}
    (hCounted : code.isCounted = true) (hLt : Machine.maxOps < m.opCount + 1) :
    countOpcode code m = .error .opCount { m with opCount := m.opCount + 1 } := by
  rw [countOpcode, if_pos hCounted, addOps_of_lt hLt]

theorem Operation.check_eq (operation : Operation) (m : Machine) :
    operation.check m =
      match operation.fault? with
      | none => .ok () m
      | some cause => .error cause m := by
  cases operation with
  | conditional c => cases c <;> rfl
  | _ => rfl

namespace Item

open Piece

/-- Whether an item is one of some script. -/
def Decoded (item : Item) : Prop :=
  ∃ script : Script, item ∈ script.items

variable {item : Item} {m : Machine} {cause : ScriptError}

/-- **An item means what its own bytes mean**, also where they cannot be decoded. -/
theorem Decoded.content_eq (h : item.Decoded) : item.content = meaning item.raw := by
  obtain ⟨script, hMem⟩ := h
  obtain ⟨-, -, hReads⟩ := Script.reads_of_mem_items hMem
  show item.content = (Instruction.read item.opcode item.operand).content
  generalize item.content = content, item.operand = operand,
    script.drop (item.start + 1) = behind, script.drop item.stop = rest at hReads
  cases hReads with
  | op hCode => rw [Instruction.read_of_lt hCode]
  | push hAnnounces =>
    have hRead := Instruction.read_push hAnnounces []
    rw [List.append_nil] at hRead
    rw [hRead]
  | earlyEnd hForm hShort =>
    have hWidth := Push.width_cases hForm
    rw [Instruction.read_of_lt_width hForm (by rw [List.length_nil]; omega)]
  | @pushPastEnd width _ _ hAnnounces hShort =>
    have hNone : ([] : Bytes).length < _ := Nat.lt_of_le_of_lt (Nat.zero_le _) hShort
    have hRead := Instruction.read_of_lt_announced hAnnounces hNone
    rw [List.append_nil] at hRead
    rw [hRead]

/-- What the checks of an item find out: whether its bytes are wrong. They count it. -/
theorem Decoded.check_eq (h : item.Decoded) (m : Machine) :
    item.check m =
      match fault? m.opCount item.raw with
      | none => .ok () { m with opCount := m.opCount + cost item.raw }
      | some cause => .error cause { m with opCount := m.opCount + cost item.raw } := by
  unfold fault? cost
  rw [← h.content_eq]
  cases hContent : item.content with
  | error e =>
    rw [check_of_error hContent]
    rfl
  | ok instruction =>
    cases instruction with
    | push data =>
      rw [check_of_push hContent]
      dsimp only
      split_ifs <;> rfl
    | op code =>
      dsimp only
      rw [Opcode.isKnown]
      cases hOperation : code.operation? with
      | none =>
        rw [check_of_unknown hContent hOperation]
        rfl
      | some operation =>
        rw [check_of_operation hContent hOperation]
        dsimp only
        rw [Option.isSome_some, Bool.true_and]
        by_cases hExceeded : (code.isCounted && decide (Machine.maxOps < m.opCount + 1)) = true
        · obtain ⟨hCounted, hLt⟩ := Bool.and_eq_true_iff.1 hExceeded
          rw [bind_of_error (countOpcode_of_exceeded hCounted (of_decide_eq_true hLt)),
            if_pos hExceeded, if_pos hCounted]
        · rw [bind_of_ok (countOpcode_of_not_exceeded hExceeded), if_neg hExceeded,
            Operation.check_eq]

end Item

-- ---------------------------------------------------------------------------
-- Where a run fails
-- ---------------------------------------------------------------------------

variable {rules : Rules} {script : Script} {item : Item} {items : List Item}
  {m mid after : Machine} {i : Nat} {cause other : ScriptError}

/-- The item in place `i` is the one that fails when the items are run. -/
def FailsAt (rules : Rules) (script : Script) (m : Machine) (items : List Item) (i : Nat)
    (cause : ScriptError) : Prop :=
  ∃ item before after, items[i]? = some item ∧ Reaches rules script m (items.take i) before ∧
    step rules script item before = .error cause after

theorem reaches_nil_iff : Reaches rules script m [] after ↔ m = after := by
  rw [reaches_iff_stepAll, stepAll_nil]
  exact ⟨fun h => (EStateM.Result.ok.inj h).2, fun h => h ▸ rfl⟩

theorem reaches_cons_iff : Reaches rules script m (item :: items) after ↔
    ∃ mid, step rules script item m = .ok () mid ∧ Reaches rules script mid items after := by
  simp only [reaches_iff_stepAll, stepAll_cons, bind_eq_ok_iff]
  exact ⟨fun ⟨_, mid, h⟩ => ⟨mid, h⟩, fun ⟨mid, h⟩ => ⟨(), mid, h⟩⟩

theorem not_reaches_cons_of_error (h : step rules script item m = .error cause mid) :
    ¬ Reaches rules script m (item :: items) after := by
  intro hReach
  obtain ⟨next, hPass, -⟩ := reaches_cons_iff.1 hReach
  rw [h] at hPass
  cases hPass

theorem failsAt_nil : ¬ FailsAt rules script m [] i cause := by
  rintro ⟨item, -, -, hItem, -⟩
  cases hItem

theorem failsAt_cons_of_error (h : step rules script item m = .error cause after) :
    FailsAt rules script m (item :: items) i other ↔ i = 0 ∧ cause = other := by
  constructor
  · rintro ⟨failing, before, left, hItem, hReach, hFails⟩
    cases i with
    | zero =>
      obtain rfl : item = failing := Option.some.inj hItem
      obtain rfl := reaches_nil_iff.1 hReach
      rw [h] at hFails
      exact ⟨rfl, (EStateM.Result.error.inj hFails).1⟩
    | succ i => exact absurd hReach (not_reaches_cons_of_error h)
  · rintro ⟨rfl, rfl⟩
    exact ⟨item, m, after, rfl, .start, h⟩

theorem failsAt_cons_of_ok (h : step rules script item m = .ok () mid) :
    FailsAt rules script m (item :: items) i cause ↔
      ∃ j, i = j + 1 ∧ FailsAt rules script mid items j cause := by
  constructor
  · rintro ⟨failing, before, left, hItem, hReach, hFails⟩
    cases i with
    | zero =>
      obtain rfl : item = failing := Option.some.inj hItem
      obtain rfl := reaches_nil_iff.1 hReach
      rw [h] at hFails
      cases hFails
    | succ j =>
      obtain ⟨next, hPass, hRest⟩ := reaches_cons_iff.1 hReach
      obtain rfl : mid = next := (EStateM.Result.ok.inj (h.symm.trans hPass)).2
      exact ⟨j, rfl, failing, before, left, hItem, hRest, hFails⟩
  · rintro ⟨j, rfl, failing, before, left, hItem, hReach, hFails⟩
    exact ⟨failing, before, left, hItem, reaches_cons_iff.2 ⟨mid, h, hReach⟩, hFails⟩

-- ---------------------------------------------------------------------------
-- One item that is passed over
-- ---------------------------------------------------------------------------

variable {own outer : List Bool} {inner : Nat}

/-- Behind the flags of some conditionals that do not all run, an item changes flags of its
own level only. -/
theorem exists_follows_scan (rules : Rules) (script : Script) (hSkip : outer.all id = false)
    (hInner : (inner : Int) = own.length + item.levelChange)
    (hInside : item.role = .separates → 1 ≤ own.length) :
    ∃ next : List Bool, next.length = inner ∧ ∀ m : Machine,
      Follows (fun _ => next ++ outer) (step rules script item (m.withBranches (own ++ outer)))
        (item.scan m) := by
  have hAll : (own ++ outer).all id = false := by
    rw [List.all_append, hSkip, Bool.and_false]
  rw [levelChange] at hInner
  cases hRole : item.role with
  | plain =>
    rw [hRole, Role.levelChange] at hInner
    refine ⟨own, by omega, fun m => ?_⟩
    exact (follows_check hRole hAll m).bind fun _ m => checkDepth_branchFree.follows m
  | opens expected =>
    rw [hRole, Role.levelChange] at hInner
    refine ⟨false :: own, ?_, fun m => follows_opener hRole hAll m⟩
    rw [List.length_cons]
    omega
  | separates =>
    rw [hRole, Role.levelChange] at hInner
    have hOwn := hInside hRole
    -- the flag that is turned is one of the sequence's own
    cases own with
    | nil => cases hOwn
    | cons runs own =>
      refine ⟨(!runs) :: own, ?_, fun m => follows_separator hRole m⟩
      rw [List.length_cons] at hInner ⊢
      omega
  | closes =>
    rw [hRole, Role.levelChange] at hInner
    cases own with
    | nil =>
      rw [List.length_nil] at hInner
      omega
    | cons runs own =>
      refine ⟨own, ?_, fun m => follows_closer hRole m⟩
      rw [List.length_cons] at hInner
      omega

theorem Item.Decoded.scan_eq (h : item.Decoded) (hDepth : m.depth ≤ Machine.maxDepth) :
    item.scan m =
      match Piece.fault? m.opCount item.raw with
      | none => .ok () { m with opCount := m.opCount + Piece.cost item.raw }
      | some cause => .error cause { m with opCount := m.opCount + Piece.cost item.raw } := by
  have hCheck := h.check_eq m
  unfold Item.scan
  cases hFault : Piece.fault? m.opCount item.raw with
  | none =>
    rw [hFault] at hCheck
    rw [bind_of_ok hCheck]
    exact checkDepth_of_le hDepth
  | some cause =>
    rw [hFault] at hCheck
    rw [bind_of_error hCheck]

/-- **One item that is passed over.** It fails just when its bytes are wrong. It counts, and
changes flags of the sequence's own, and nothing else. -/
theorem exists_step_eq (rules : Rules) (script : Script) (hSkip : outer.all id = false)
    (hDecoded : item.Decoded) (hBranches : m.branches = own ++ outer)
    (hDepth : m.depth ≤ Machine.maxDepth)
    (hInner : (inner : Int) = own.length + item.levelChange)
    (hInside : item.role = .separates → 1 ≤ own.length) :
    ∃ next : List Bool, next.length = inner ∧
      (Piece.fault? m.opCount item.raw = none → step rules script item m =
        .ok () { m with branches := next ++ outer, opCount := m.opCount + Piece.cost item.raw }) ∧
      ∀ cause, Piece.fault? m.opCount item.raw = some cause →
        ∃ branches, step rules script item m =
          .error cause { m with branches, opCount := m.opCount + Piece.cost item.raw } := by
  obtain ⟨next, hNext, hFollows⟩ := exists_follows_scan rules script hSkip hInner hInside
  have hSelf : m.withBranches (own ++ outer) = m := by
    rw [← hBranches]
    rfl
  have hStep := hFollows m
  rw [hSelf, hDecoded.scan_eq hDepth] at hStep
  refine ⟨next, hNext, fun hFault => ?_, fun cause hFault => ?_⟩
  · rw [hFault] at hStep
    generalize step rules script item m = outcome at hStep ⊢
    cases hStep with
    | answer u m => rfl
  · rw [hFault] at hStep
    generalize step rules script item m = outcome at hStep ⊢
    cases hStep with
    | failure cause m branches => exact ⟨branches, rfl⟩

-- ---------------------------------------------------------------------------
-- Sequences that are passed over
-- ---------------------------------------------------------------------------

/-- What is said of a run over items behind the flags `outer`, some of which are false. In
front of them are the flags of the `level` conditionals that the sequence has opened. -/
structure PassedOver (rules : Rules) (script : Script) (outer : List Bool) (level : Nat)
    (items : List Item) (m : Machine) : Prop where
  /-- Only flags and the number of operations are others. -/
  leaves_eq : ∃ branches opCount,
    leaves (stepAll rules script items) m = { m with branches, opCount }
  /-- The flags from before are still there, behind those of what is open. -/
  branches_eq : ∀ after, Reaches rules script m items after →
    ∃ own : List Bool, own.length = levelFrom level items ∧ after.branches = own ++ outer
  completes_iff : (∃ after, Reaches rules script m items after) ↔
    Piece.firstFault? m.opCount (items.map Item.raw) = none
  failsAt_iff : ∀ i cause, FailsAt rules script m items i cause ↔
    Piece.firstFault? m.opCount (items.map Item.raw) = some (i, cause)

theorem passedOver_nil (hBranches : m.branches = own ++ outer) :
    PassedOver rules script outer own.length [] m where
  leaves_eq := ⟨m.branches, m.opCount, rfl⟩
  branches_eq := by
    intro after hReach
    obtain rfl := reaches_nil_iff.1 hReach
    exact ⟨own, (levelFrom_nil own.length).symm, hBranches⟩
  completes_iff := ⟨fun _ => rfl, fun _ => ⟨m, .start⟩⟩
  failsAt_iff := by
    intro i cause
    exact ⟨fun h => absurd h failsAt_nil, nofun⟩

theorem PassedOver.cons_of_error {level : Nat} {branches : List Bool} {opCount : Nat}
    (hStep : step rules script item m = .error cause { m with branches, opCount })
    (hFault : Piece.fault? m.opCount item.raw = some cause) :
    PassedOver rules script outer level (item :: items) m where
  leaves_eq := by
    refine ⟨branches, opCount, ?_⟩
    rw [stepAll_cons, leaves_of_error (bind_of_error hStep)]
  branches_eq := fun _ hReach => absurd hReach (not_reaches_cons_of_error hStep)
  completes_iff := by
    rw [List.map_cons, Piece.firstFault?_cons_of_some hFault]
    exact ⟨fun ⟨_, hReach⟩ => absurd hReach (not_reaches_cons_of_error hStep), nofun⟩
  failsAt_iff := by
    intro i other
    rw [List.map_cons, Piece.firstFault?_cons_of_some hFault, failsAt_cons_of_error hStep]
    simp [eq_comm]

theorem PassedOver.cons_of_ok {level : Nat} {branches : List Bool}
    (hStep : step rules script item m =
      .ok () { m with branches, opCount := m.opCount + Piece.cost item.raw })
    (hFault : Piece.fault? m.opCount item.raw = none)
    (hInner : (inner : Int) = level + item.levelChange)
    (h : PassedOver rules script outer inner items
      { m with branches, opCount := m.opCount + Piece.cost item.raw }) :
    PassedOver rules script outer level (item :: items) m where
  leaves_eq := by
    obtain ⟨left, opCount, hLeaves⟩ := h.leaves_eq
    refine ⟨left, opCount, ?_⟩
    rw [stepAll_cons, leaves, bind_of_ok hStep]
    exact hLeaves
  branches_eq := by
    intro after hReach
    obtain ⟨mid, hPass, hRest⟩ := reaches_cons_iff.1 hReach
    rw [hStep] at hPass
    obtain rfl := (EStateM.Result.ok.inj hPass).2
    rw [levelFrom_cons hInner]
    exact h.branches_eq after hRest
  completes_iff := by
    rw [List.map_cons, Piece.firstFault?_cons_of_none hFault, Option.map_eq_none_iff,
      ← h.completes_iff]
    simp only [reaches_cons_iff, hStep, EStateM.Result.ok.injEq, true_and, exists_eq_left']
  failsAt_iff := by
    intro i cause
    rw [List.map_cons, Piece.firstFault?_cons_of_none hFault, failsAt_cons_of_ok hStep]
    simp only [h.failsAt_iff, Option.map_eq_some_iff, Prod.exists, Prod.mk.injEq]
    constructor
    · rintro ⟨j, rfl, hLater⟩
      exact ⟨j, cause, hLater, rfl, rfl⟩
    · rintro ⟨j, later, hLater, rfl, rfl⟩
      exact ⟨j, rfl, hLater⟩

/-- **A sequence that nests is passed over** behind flags that are not all true. -/
theorem NestedFrom.passedOver (h : NestedFrom own.length items) (hSkip : outer.all id = false)
    (hDecoded : ∀ item ∈ items, item.Decoded) (hBranches : m.branches = own ++ outer)
    (hDepth : m.depth ≤ Machine.maxDepth) :
    PassedOver rules script outer own.length items m := by
  -- induction on the items, with their own flags and the operations that were counted
  induction items generalizing own m with
  | nil => exact passedOver_nil hBranches
  | cons item items ih =>
    obtain ⟨⟨inner, hInner, hNested⟩, hInside⟩ := h.tail
    have hItem : item.Decoded := hDecoded item List.mem_cons_self
    obtain ⟨next, rfl, hPass, hFail⟩ :=
      exists_step_eq rules script hSkip hItem hBranches hDepth hInner hInside
    cases hFault : Piece.fault? m.opCount item.raw with
    | some cause =>
      obtain ⟨branches, hStep⟩ := hFail cause hFault
      exact .cons_of_error hStep hFault
    | none =>
      refine .cons_of_ok (hPass hFault) hFault hInner ?_
      exact ih hNested (fun other hMem => hDecoded other (List.mem_cons_of_mem _ hMem)) rfl hDepth

/-- **Code that is passed over is inert.** Where some branch does not run, and the stacks are
not too deep, decoded items that nest leave both stacks and the script code as they are, and
ask the checker nothing. When they complete and close what they open, the flags are those from
before. Whether they complete, and which item fails otherwise and why, is told by the bytes of
the items and the number of operations counted before. -/
theorem skipped_inert (rules : Rules) (script : Script) (hSkip : false ∈ m.branches)
    (hDepth : m.depth ≤ Machine.maxDepth)
    (hDecoded : ∀ item ∈ items, ∃ source : Script, item ∈ source.items)
    (hNested : NestedFrom 0 items) :
    let left := leaves (stepAll rules script items) m
    let fault := Piece.firstFault? m.opCount (items.map Item.raw)
    (left.stack = m.stack ∧ left.alt = m.alt ∧ left.codeStart = m.codeStart ∧
      left.calls = m.calls) ∧
    (∀ after, Reaches rules script m items after → levelFrom 0 items = 0 →
      after.branches = m.branches) ∧
    ((∃ after, Reaches rules script m items after) ↔ fault = none) ∧
    (∀ i cause, FailsAt rules script m items i cause ↔ fault = some (i, cause)) ∧
    ∀ i cause, fault = some (i, cause) →
      cause ∈ [.pushSize, .malformedPush, .unknownOpcode, .opCount, .disabledOpcode,
        ScriptError.badOpcode] ∧
      (cause = .badOpcode → ∃ item, items[i]? = some item ∧
        (item.content = .ok (.op 0x65) ∨ item.content = .ok (.op 0x66))) := by
  have hOuter : m.branches.all id = false := by
    rw [List.all_eq_false]
    exact ⟨false, hSkip, Bool.false_ne_true⟩
  -- none of the flags is the sequence's own
  have hPassed : PassedOver rules script m.branches ([] : List Bool).length items m :=
    NestedFrom.passedOver hNested hOuter hDecoded rfl hDepth
  intro left fault
  refine ⟨?_, ?_, hPassed.completes_iff, hPassed.failsAt_iff, ?_⟩
  · obtain ⟨branches, opCount, hLeft⟩ := hPassed.leaves_eq
    have hEq : left = { m with branches, opCount } := hLeft
    rw [hEq]
    exact ⟨rfl, rfl, rfl, rfl⟩
  · intro after hReach hClosed
    obtain ⟨own, hLength, hBranches⟩ := hPassed.branches_eq after hReach
    rw [List.length_nil, hClosed] at hLength
    have hNone : own = [] := List.eq_nil_of_length_eq_zero (Int.ofNat_eq_zero.1 hLength)
    rw [hBranches, hNone, List.nil_append]
  · intro i cause hFault
    obtain ⟨piece, counted, hPiece, hCause⟩ := Piece.exists_fault_of_firstFault? hFault
    obtain ⟨hKind, hBad⟩ := Piece.fault?_cases hCause
    refine ⟨hKind, fun hEq => ?_⟩
    rw [List.getElem?_map] at hPiece
    obtain ⟨item, hItem, rfl⟩ := Option.map_eq_some_iff.1 hPiece
    have hContent := Item.Decoded.content_eq (hDecoded item (List.mem_of_getElem? hItem))
    exact ⟨item, hItem, hContent ▸ hBad hEq⟩

/-- An inner conditional whose second arm would run on its own, with a test of a signature in
it, and then an opcode that is disabled. The last operation that can be counted is behind the
conditional, so that one operation more or less decides what is wrong with that opcode. -/
theorem skipped_inert_disabled :
    let rules : Rules := ⟨{ checkSig := fun _ _ _ => true }, Flags.none⟩
    let script : Script := [0x63, 0x67, 0xac, 0x6a, 0x68, 0x7e]
    let m : Machine := ⟨[], [], [true, false], 195, 0, []⟩
    let late : Machine := { m with opCount := 196 }
    false ∈ m.branches ∧ m.depth ≤ Machine.maxDepth ∧
      (∀ item ∈ script.items, ∃ source : Script, item ∈ source.items) ∧
      NestedFrom 0 script.items ∧
      (leaves (stepAll rules script script.items) m).calls = [] ∧
      FailsAt rules script m script.items 5 .disabledOpcode ∧
      FailsAt rules script late script.items 5 .opCount := by
  intro rules script m late
  have hSkip : false ∈ m.branches := by decide
  have hDepth : m.depth ≤ Machine.maxDepth := by decide
  have hDecoded : ∀ item ∈ script.items, ∃ source : Script, item ∈ source.items :=
    fun item hMem => ⟨script, hMem⟩
  have hNested : WellNested script.items := by decide +kernel
  obtain ⟨⟨-, -, -, hCalls⟩, -, -, hFails, -⟩ :=
    skipped_inert rules script hSkip hDepth hDecoded hNested.toNestedFrom
  obtain ⟨-, -, -, hLate, -⟩ :=
    skipped_inert (m := late) rules script hSkip hDepth hDecoded hNested.toNestedFrom
  exact ⟨hSkip, hDepth, hDecoded, hNested.toNestedFrom, hCalls,
    (hFails 5 _).2 (by decide +kernel), (hLate 5 _).2 (by decide +kernel)⟩

end LegacyScript
