import LegacyScript.Proofs.Stack.Actions

/-!
# Rearranging the stacks

The opcodes that rearrange the two stacks have effects that are written as in Forth: what
lies on top before, and what lies there after, each from the bottom up. `Rewrites` is the
list of them. What such an opcode does to the elements that it reads, it does above any
others, so that its effect is found by running it on these elements alone. If one of them
is missing, it finds that out before it moves any.

The two opcodes that take from the stack how far they reach into it are one action,
`StackM.reach`, with two ways of taking hold of the element that is reached.

## Results

* `Rewrites.execute_eq`    — an opcode rewrites what it reads, above any other elements.
* `Demand.governs`         — what it lacks is found out first, and nothing else can fail.
* `StackM.reach_of_access`, `StackM.reach_of_not_addresses` — what the top says is reached.
* `Opcode.executeAll_idle` — sequences of opcodes that have no effect.
* `rearrangement_exact`    — all of this, of every machine.
-/

namespace LegacyScript

open StackM MachineM

-- ---------------------------------------------------------------------------
-- Effects
-- ---------------------------------------------------------------------------

/-- The topmost elements of the two stacks, from the bottom up. -/
structure Tops where
  main : List Bytes
  alt : List Bytes

/-- The machine with more elements on top of its stacks. -/
def Machine.topped (m : Machine) (tops : Tops) : Machine :=
  { m with stack := Stack.ofItems tops.main ++ m.stack, alt := Stack.ofItems tops.alt ++ m.alt }

/-- What opcodes make of the topmost elements, on a main stack of the given height. -/
inductive Rewrites (height : Nat) : Opcode → Tops → Tops → Prop
  -- OP_TOALTSTACK, OP_FROMALTSTACK
  | toAlt (a : Bytes) : Rewrites height 0x6b ⟨[a], []⟩ ⟨[], [a]⟩
  | fromAlt (a : Bytes) : Rewrites height 0x6c ⟨[], [a]⟩ ⟨[a], []⟩
  -- OP_2DROP, OP_2DUP, OP_3DUP, OP_2OVER, OP_2ROT, OP_2SWAP
  | drop2 (a b : Bytes) : Rewrites height 0x6d ⟨[a, b], []⟩ ⟨[], []⟩
  | dup2 (a b : Bytes) : Rewrites height 0x6e ⟨[a, b], []⟩ ⟨[a, b, a, b], []⟩
  | dup3 (a b c : Bytes) : Rewrites height 0x6f ⟨[a, b, c], []⟩ ⟨[a, b, c, a, b, c], []⟩
  | over2 (a b c d : Bytes) :
      Rewrites height 0x70 ⟨[a, b, c, d], []⟩ ⟨[a, b, c, d, a, b], []⟩
  | rot2 (a b c d e f : Bytes) :
      Rewrites height 0x71 ⟨[a, b, c, d, e, f], []⟩ ⟨[c, d, e, f, a, b], []⟩
  | swap2 (a b c d : Bytes) : Rewrites height 0x72 ⟨[a, b, c, d], []⟩ ⟨[c, d, a, b], []⟩
  -- OP_IFDUP
  | ifDup_true (a : Bytes) (h : Number.truthy a = true) :
      Rewrites height 0x73 ⟨[a], []⟩ ⟨[a, a], []⟩
  | ifDup_false (a : Bytes) (h : Number.truthy a = false) :
      Rewrites height 0x73 ⟨[a], []⟩ ⟨[a], []⟩
  -- OP_DEPTH
  | depth : Rewrites height 0x74 ⟨[], []⟩ ⟨[Number.encode height], []⟩
  -- OP_DROP, OP_DUP, OP_NIP, OP_OVER, OP_ROT, OP_SWAP, OP_TUCK
  | drop (a : Bytes) : Rewrites height 0x75 ⟨[a], []⟩ ⟨[], []⟩
  | dup (a : Bytes) : Rewrites height 0x76 ⟨[a], []⟩ ⟨[a, a], []⟩
  | nip (a b : Bytes) : Rewrites height 0x77 ⟨[a, b], []⟩ ⟨[b], []⟩
  | over (a b : Bytes) : Rewrites height 0x78 ⟨[a, b], []⟩ ⟨[a, b, a], []⟩
  | rot (a b c : Bytes) : Rewrites height 0x7b ⟨[a, b, c], []⟩ ⟨[b, c, a], []⟩
  | swap (a b : Bytes) : Rewrites height 0x7c ⟨[a, b], []⟩ ⟨[b, a], []⟩
  | tuck (a b : Bytes) : Rewrites height 0x7d ⟨[a, b], []⟩ ⟨[b, a, b], []⟩
  -- OP_SIZE
  | size (a : Bytes) : Rewrites height 0x82 ⟨[a], []⟩ ⟨[a, Number.encode a.length], []⟩

variable {rules : Rules} {script : Script} {code : Opcode} {m base : Machine}

/-- An operation that does not ask for the height of the stack does above any elements what
it does above none. -/
theorem StackOp.run_append {op : StackOp} {s t : Stack} (hDepth : op ≠ .depth)
    (h : op.run s = .ok () t) (below : Stack) : op.run (s ++ below) = .ok () (t ++ below) := by
  let anything : Effects := ⟨fun _ => True, op.causes, True⟩
  have hTame : Tame anything (fun _ => True) op.run :=
    op.run_tame closed_true hDepth (List.Subset.refl _)
  exact hTame.framed (fun _ => trivial) below s () t h

/-- What an operation makes of its operands alone, its opcode makes of them on a machine. -/
theorem Opcode.execute_topped {op : StackOp} {before after : List Bytes}
    (hCode : code.operation? = some (.stack op)) (hDepth : op ≠ .depth)
    (hRun : op.run (Stack.ofItems before) = .ok () (Stack.ofItems after)) (base : Machine) :
    code.execute rules script (base.topped ⟨before, []⟩) = .ok () (base.topped ⟨after, []⟩) := by
  rw [Opcode.execute_of_operation hCode]
  exact onStack_of_ok (StackOp.run_append hDepth hRun base.stack)

/-- **An opcode rewrites the elements that it reads**, and leaves alone what is below. -/
theorem Rewrites.execute_eq {before after : Tops}
    (h : Rewrites (base.topped before).stack.length code before after) :
    code.execute rules script (base.topped before) = .ok () (base.topped after) := by
  generalize hHeight : (base.topped before).stack.length = height at h
  cases h with
  | toAlt a => rfl
  | fromAlt a => rfl
  | depth =>
    rw [← hHeight]
    rfl
  | ifDup_true a hTrue =>
    have hRun : StackOp.ifDup.run [a] = .ok () [a, a] := by
      show (if Number.truthy a then push a else pure ()) [a] = _
      rw [if_pos hTrue]
      rfl
    exact Opcode.execute_topped rfl (by decide) hRun base
  | ifDup_false a hFalse =>
    have hRun : StackOp.ifDup.run [a] = .ok () [a] := by
      show (if Number.truthy a then push a else pure ()) [a] = _
      rw [hFalse]
      rfl
    exact Opcode.execute_topped rfl (by decide) hRun base
  | _ => exact Opcode.execute_topped rfl (by decide) rfl base

-- ---------------------------------------------------------------------------
-- Demands
-- ---------------------------------------------------------------------------

/-- What an opcode reads: so many elements of one of the stacks. -/
inductive Demand
  | main (count : Nat)
  | alt (count : Nat)

namespace Demand

/-- Whether a machine has the elements. -/
def Met (m : Machine) : Demand → Prop
  | .main count => count ≤ m.stack.length
  | .alt count => count ≤ m.alt.length

instance (m : Machine) (demand : Demand) : Decidable (demand.Met m) :=
  match demand with
  | .main count => inferInstanceAs (Decidable (count ≤ m.stack.length))
  | .alt count => inferInstanceAs (Decidable (count ≤ m.alt.length))

/-- Why an opcode fails that lacks an element. -/
def cause : Demand → ScriptError
  | .main _ => .invalidStackOperation
  | .alt _ => .invalidAltStackOperation

/-- The opcodes that rearrange the stacks, but for those that find on the stack how far they
reach into it. -/
def opcodes : List (Opcode × Demand) := [
  -- OP_TOALTSTACK, OP_FROMALTSTACK
  (0x6b, .main 1), (0x6c, .alt 1),
  -- OP_2DROP, OP_2DUP, OP_3DUP, OP_2OVER, OP_2ROT, OP_2SWAP
  (0x6d, .main 2), (0x6e, .main 2), (0x6f, .main 3), (0x70, .main 4), (0x71, .main 6),
  (0x72, .main 4),
  -- OP_IFDUP, OP_DEPTH
  (0x73, .main 1), (0x74, .main 0),
  -- OP_DROP, OP_DUP, OP_NIP, OP_OVER, OP_ROT, OP_SWAP, OP_TUCK, OP_SIZE
  (0x75, .main 1), (0x76, .main 1), (0x77, .main 2), (0x78, .main 2), (0x7b, .main 3),
  (0x7c, .main 2), (0x7d, .main 2), (0x82, .main 1)]

end Demand

/-- The number of elements that an operation reads, as far as it is known beforehand. -/
def StackOp.reads : StackOp → Nat
  | .depth => 0
  | .ifDup | .drop | .dup | .size => 1
  | .drop2 | .dup2 | .nip | .over | .pick | .roll | .swap | .tuck => 2
  | .dup3 | .rot => 3
  | .over2 | .swap2 => 4
  | .rot2 => 6

/-- An operation that lacks an element finds that out first. -/
theorem StackOp.run_of_lt {op : StackOp} {s : Stack} (h : s.length < op.reads) :
    op.run s = .error .invalidStackOperation s := by
  cases op with
  | depth => cases h
  | ifDup | drop | dup | size =>
    obtain rfl : s = [] := List.length_eq_zero_iff.1 (Nat.lt_one_iff.1 h)
    rfl
  | _ => exact bind_of_error (require_of_lt h)

theorem Opcode.execute_of_lt {op : StackOp} (hCode : code.operation? = some (.stack op))
    (h : m.stack.length < op.reads) :
    code.execute rules script m = .error .invalidStackOperation m := by
  rw [Opcode.execute_of_operation hCode]
  exact onStack_of_error (StackOp.run_of_lt h)

/-- An opcode fails for want of what it reads, and leaves everything as it was. Where all
is there, it rewrites that. -/
def Demand.Governs (demand : Demand) (code : Opcode) : Prop :=
  ∀ rules script m,
    (¬ demand.Met m → code.execute rules script m = .error demand.cause m) ∧
    (demand.Met m → ∃ (base : Machine) (before after : Tops), m = base.topped before ∧
      Rewrites m.stack.length code before after ∧
      code.execute rules script m = .ok () (base.topped after))

/-- So many elements are the topmost ones of a stack that is high enough. -/
theorem Stack.exists_ofItems_of_le {n : Nat} {s : Stack} (h : n ≤ s.length) :
    ∃ items below, items.length = n ∧ s = ofItems items ++ below := by
  refine ⟨(s.take n).reverse, s.drop n, ?_, ?_⟩
  · rw [List.length_reverse, List.length_take_of_le h]
  · rw [ofItems, List.reverse_reverse, List.take_append_drop]

theorem Machine.exists_topped_main {count : Nat} (h : count ≤ m.stack.length) :
    ∃ (base : Machine) (before : List Bytes),
      before.length = count ∧ m = base.topped ⟨before, []⟩ := by
  obtain ⟨before, below, hLength, hStack⟩ := Stack.exists_ofItems_of_le h
  refine ⟨{ m with stack := below }, before, hLength, ?_⟩
  show m = { m with stack := Stack.ofItems before ++ below }
  rw [← hStack]

theorem Machine.exists_topped_alt {count : Nat} (h : count ≤ m.alt.length) :
    ∃ (base : Machine) (before : List Bytes),
      before.length = count ∧ m = base.topped ⟨[], before⟩ := by
  obtain ⟨before, below, hLength, hAlt⟩ := Stack.exists_ofItems_of_le h
  refine ⟨{ m with alt := below }, before, hLength, ?_⟩
  show m = { m with alt := Stack.ofItems before ++ below }
  rw [← hAlt]

namespace Demand

/-- It is enough to know what an opcode lacks, and what it finds to rewrite otherwise. -/
theorem governs_of_rewrites {demand : Demand}
    (hLack : ∀ rules script m, ¬ demand.Met m → code.execute rules script m = .error demand.cause m)
    (hRewrites : ∀ m, demand.Met m → ∃ (base : Machine) (before after : Tops),
      m = base.topped before ∧ Rewrites m.stack.length code before after) :
    demand.Governs code := by
  intro rules script m
  refine ⟨hLack rules script m, ?_⟩
  intro hMet
  obtain ⟨base, before, after, rfl, hAfter⟩ := hRewrites m hMet
  exact ⟨base, before, after, rfl, hAfter, hAfter.execute_eq⟩

theorem governs_main {count : Nat}
    (hLack : ∀ rules script (m : Machine), m.stack.length < count →
      code.execute rules script m = .error .invalidStackOperation m)
    (hRewrites : ∀ height before, before.length = count →
      ∃ after, Rewrites height code ⟨before, []⟩ after) : (main count).Governs code := by
  refine governs_of_rewrites
    (fun rules script m hNot => hLack rules script m (Nat.not_le.1 hNot)) ?_
  intro m hMet
  obtain ⟨base, before, hLength, hTopped⟩ := Machine.exists_topped_main hMet
  obtain ⟨after, hAfter⟩ := hRewrites m.stack.length before hLength
  exact ⟨base, ⟨before, []⟩, after, hTopped, hAfter⟩

theorem governs_alt {count : Nat}
    (hLack : ∀ rules script (m : Machine), m.alt.length < count →
      code.execute rules script m = .error .invalidAltStackOperation m)
    (hRewrites : ∀ height before, before.length = count →
      ∃ after, Rewrites height code ⟨[], before⟩ after) : (alt count).Governs code := by
  refine governs_of_rewrites
    (fun rules script m hNot => hLack rules script m (Nat.not_le.1 hNot)) ?_
  intro m hMet
  obtain ⟨base, before, hLength, hTopped⟩ := Machine.exists_topped_alt hMet
  obtain ⟨after, hAfter⟩ := hRewrites m.stack.length before hLength
  exact ⟨base, ⟨[], before⟩, after, hTopped, hAfter⟩

/-- The demand of an operation on the main stack. -/
theorem governs_stack {op : StackOp} (hCode : code.operation? = some (.stack op))
    (hRewrites : ∀ height before, before.length = op.reads →
      ∃ after, Rewrites height code ⟨before, []⟩ after) : (main op.reads).Governs code :=
  governs_main (fun _ _ _ hLack => Opcode.execute_of_lt hCode hLack) hRewrites

theorem governs_toAlt : (main 1).Governs 0x6b := by
  refine governs_main ?_ fun
    | _, [a], _ => ⟨_, .toAlt a⟩
  intro rules script m hLack
  have hNil : m.stack = [] := List.length_eq_zero_iff.1 (Nat.lt_one_iff.1 hLack)
  have hPop : pop m.stack = .error .invalidStackOperation m.stack := by rw [hNil, pop_nil]
  exact bind_of_error (onStack_of_error hPop)

theorem governs_fromAlt : (alt 1).Governs 0x6c := by
  refine governs_alt ?_ fun
    | _, [a], _ => ⟨_, .fromAlt a⟩
  intro rules script m hLack
  have hNil : m.alt = [] := List.length_eq_zero_iff.1 (Nat.lt_one_iff.1 hLack)
  exact bind_of_error (popAlt_of_nil hNil)

theorem exists_rewrites_ifDup (height : Nat) (a : Bytes) :
    ∃ after, Rewrites height 0x73 ⟨[a], []⟩ after := by
  cases hTop : Number.truthy a with
  | true => exact ⟨_, .ifDup_true a hTop⟩
  | false => exact ⟨_, .ifDup_false a hTop⟩

/-- **Every opcode is governed by its demand.** -/
theorem governs {demand : Demand} (h : (code, demand) ∈ opcodes) : demand.Governs code := by
  simp only [opcodes, List.mem_cons, Prod.mk.injEq, List.not_mem_nil, or_false] at h
  rcases h with ⟨rfl, rfl⟩ | ⟨rfl, rfl⟩ | ⟨rfl, rfl⟩ | ⟨rfl, rfl⟩ | ⟨rfl, rfl⟩ | ⟨rfl, rfl⟩ |
    ⟨rfl, rfl⟩ | ⟨rfl, rfl⟩ | ⟨rfl, rfl⟩ | ⟨rfl, rfl⟩ | ⟨rfl, rfl⟩ | ⟨rfl, rfl⟩ | ⟨rfl, rfl⟩ |
    ⟨rfl, rfl⟩ | ⟨rfl, rfl⟩ | ⟨rfl, rfl⟩ | ⟨rfl, rfl⟩ | ⟨rfl, rfl⟩
  · exact governs_toAlt
  · exact governs_fromAlt
  · exact governs_stack rfl fun
      | _, [a, b], _ => ⟨_, .drop2 a b⟩
  · exact governs_stack rfl fun
      | _, [a, b], _ => ⟨_, .dup2 a b⟩
  · exact governs_stack rfl fun
      | _, [a, b, c], _ => ⟨_, .dup3 a b c⟩
  · exact governs_stack rfl fun
      | _, [a, b, c, d], _ => ⟨_, .over2 a b c d⟩
  · exact governs_stack rfl fun
      | _, [a, b, c, d, e, f], _ => ⟨_, .rot2 a b c d e f⟩
  · exact governs_stack rfl fun
      | _, [a, b, c, d], _ => ⟨_, .swap2 a b c d⟩
  · exact governs_stack rfl fun
      | height, [a], _ => exists_rewrites_ifDup height a
  · exact governs_stack rfl fun
      | _, [], _ => ⟨_, .depth⟩
  · exact governs_stack rfl fun
      | _, [a], _ => ⟨_, .drop a⟩
  · exact governs_stack rfl fun
      | _, [a], _ => ⟨_, .dup a⟩
  · exact governs_stack rfl fun
      | _, [a, b], _ => ⟨_, .nip a b⟩
  · exact governs_stack rfl fun
      | _, [a, b], _ => ⟨_, .over a b⟩
  · exact governs_stack rfl fun
      | _, [a, b, c], _ => ⟨_, .rot a b c⟩
  · exact governs_stack rfl fun
      | _, [a, b], _ => ⟨_, .swap a b⟩
  · exact governs_stack rfl fun
      | _, [a, b], _ => ⟨_, .tuck a b⟩
  · exact governs_stack rfl fun
      | _, [a], _ => ⟨_, .size a⟩

end Demand

-- ---------------------------------------------------------------------------
-- Reaching into the stack
-- ---------------------------------------------------------------------------

namespace StackM

variable {access : Nat → StackM Bytes} {top value : Bytes} {front rest below s t : Stack}

/-- Takes the depth of an element, takes hold of it, and puts it on top. -/
def reach (access : Nat → StackM Bytes) : StackM Unit := do
  require 2
  let depth ← popDepth
  let value ← access depth
  push value

/-- Whether a stack has another element where its top says so. -/
def Addresses : Stack → Prop
  | [] => False
  | top :: below => below ≠ [] ∧ top.length ≤ 4 ∧ 0 ≤ Number.decode top ∧
      Number.decode top < below.length

instance (s : Stack) : Decidable (Addresses s) :=
  match s with
  | [] => inferInstanceAs (Decidable False)
  | top :: below => inferInstanceAs (Decidable (below ≠ [] ∧ top.length ≤ 4 ∧
      0 ≤ Number.decode top ∧ Number.decode top < below.length))

theorem popDepth_of_le (h : top.length ≤ 4) (below : Stack) :
    popDepth (top :: below) = asDepth (Number.decode top) below :=
  bind_of_ok (popNumber_of_le h)

/-- The element that the top says is put on top, as it was taken hold of. -/
theorem reach_of_access (hTop : top.length ≤ 4) (hDepth : Number.decode top = front.length)
    (hAccess : access front.length (front ++ value :: rest) = .ok value t) :
    reach access (top :: (front ++ value :: rest)) = .ok () (value :: t) := by
  have hEnough : 2 ≤ (top :: (front ++ value :: rest)).length := by
    rw [List.length_cons, List.length_append, List.length_cons]
    omega
  have hRange : 0 ≤ Number.decode top ∧ Number.decode top < (front ++ value :: rest).length := by
    rw [hDepth, List.length_append, List.length_cons]
    omega
  have hPop : popDepth (top :: (front ++ value :: rest)) =
      .ok front.length (front ++ value :: rest) := by
    rw [popDepth_of_le hTop, asDepth_eq, if_pos hRange, hDepth, Int.toNat_natCast]
  unfold reach
  rw [bind_of_ok (require_of_le hEnough), bind_of_ok hPop, bind_of_ok hAccess]
  rfl

theorem Addresses.split (h : Addresses s) : ∃ top front value rest,
    s = top :: (front ++ value :: rest) ∧ top.length ≤ 4 ∧ Number.decode top = front.length := by
  match s, h with
  | top :: below, ⟨_, hTop, hNonneg, hLt⟩ =>
    obtain ⟨depth, hDepth⟩ := Int.eq_ofNat_of_zero_le hNonneg
    have hBelow : depth < below.length := by omega
    obtain ⟨front, value, rest, rfl, hFront⟩ := exists_split_of_lt hBelow
    exact ⟨top, front, value, rest, rfl, hTop, by rw [hFront, hDepth]⟩

theorem reach_of_not_addresses (access : Nat → StackM Bytes) (h : ¬ Addresses s) :
    ∃ cause t, reach access s = .error cause t := by
  match s with
  | [] => exact ⟨_, _, bind_of_error (require_of_lt Nat.two_pos)⟩
  | [top] => exact ⟨_, _, bind_of_error (require_of_lt (Nat.lt_succ_self 1))⟩
  | top :: next :: below =>
    have hEnough : 2 ≤ (top :: next :: below).length := by simp
    unfold reach
    rw [bind_of_ok (require_of_le hEnough)]
    by_cases hTop : top.length ≤ 4
    · have hRange : ¬ (0 ≤ Number.decode top ∧ Number.decode top < (next :: below).length) :=
        fun hRange => h ⟨List.cons_ne_nil _ _, hTop, hRange⟩
      have hPop : popDepth (top :: next :: below) =
          .error .invalidStackOperation (next :: below) := by
        rw [popDepth_of_le hTop, asDepth_eq, if_neg hRange]
      exact ⟨_, _, bind_of_error hPop⟩
    · have hPop : popDepth (top :: next :: below) = .error .numOverflow (next :: below) :=
        bind_of_error (popNumber_of_lt (Nat.not_le.1 hTop))
      exact ⟨_, _, bind_of_error hPop⟩

theorem peek_append (front rest : Stack) (value : Bytes) :
    peek front.length (front ++ value :: rest) = .ok value (front ++ value :: rest) := by
  simp [peek]

theorem remove_append (front rest : Stack) (value : Bytes) :
    remove front.length (front ++ value :: rest) = .ok value (front ++ rest) := by
  simp [remove, List.eraseIdx_append_of_length_le]

end StackM

theorem Opcode.execute_pick : execute rules script 0x79 = onStack (reach peek) := rfl

theorem Opcode.execute_roll : execute rules script 0x7a = onStack (reach remove) := rfl

-- ---------------------------------------------------------------------------
-- Sequences without effect
-- ---------------------------------------------------------------------------

/-- Executes opcodes in order, as long as they succeed. -/
def Opcode.executeAll (rules : Rules) (script : Script) (codes : List Opcode) : MachineM Unit :=
  codes.forM (execute rules script)

/-- Sequences of opcodes that leave everything as it was, with the number of elements that
they need. -/
def Opcode.idle : List (List Opcode × Nat) := [
  -- OP_ROT OP_ROT OP_ROT
  ([0x7b, 0x7b, 0x7b], 3),
  -- OP_2ROT OP_2ROT OP_2ROT
  ([0x71, 0x71, 0x71], 6),
  -- OP_SWAP OP_SWAP
  ([0x7c, 0x7c], 2),
  -- OP_2SWAP OP_2SWAP
  ([0x72, 0x72], 4),
  -- OP_TOALTSTACK OP_FROMALTSTACK
  ([0x6b, 0x6c], 1)]

/-- A sequence of rewritings is executed one after the other. -/
inductive RewritesAll : List Opcode → Tops → Tops → Prop
  | nil (tops : Tops) : RewritesAll [] tops tops
  | cons {code : Opcode} {codes : List Opcode} {tops next after : Tops}
      (hFirst : ∀ height, Rewrites height code tops next) (hRest : RewritesAll codes next after) :
      RewritesAll (code :: codes) tops after

theorem RewritesAll.executeAll_eq {codes : List Opcode} {before after : Tops}
    (h : RewritesAll codes before after) :
    Opcode.executeAll rules script codes (base.topped before) = .ok () (base.topped after) := by
  induction h with
  | nil tops => rfl
  | cons hFirst _ ih => exact (bind_of_ok (hFirst _).execute_eq).trans ih

/-- A sequence that rewrites what its first opcode reads to itself has no effect. -/
theorem Opcode.executeAll_of_rewrites {codes : List Opcode} {count : Nat}
    (hCode : (code, .main count) ∈ Demand.opcodes)
    (hSame : ∀ before, before.length = count →
      RewritesAll (code :: codes) ⟨before, []⟩ ⟨before, []⟩) (m : Machine) :
    executeAll rules script (code :: codes) m =
      if count ≤ m.stack.length then .ok () m else .error .invalidStackOperation m := by
  by_cases hMet : count ≤ m.stack.length
  · obtain ⟨base, before, hLength, hTopped⟩ := Machine.exists_topped_main hMet
    rw [if_pos hMet, hTopped]
    exact (hSame before hLength).executeAll_eq
  · rw [if_neg hMet]
    exact bind_of_error ((Demand.governs hCode rules script m).1 hMet)

/-- **The idle sequences have no effect**, whether or not they succeed. -/
theorem Opcode.executeAll_idle {codes : List Opcode} {count : Nat} (h : (codes, count) ∈ idle)
    (m : Machine) : executeAll rules script codes m =
      if count ≤ m.stack.length then .ok () m else .error .invalidStackOperation m := by
  simp only [idle, List.mem_cons, Prod.mk.injEq, List.not_mem_nil, or_false] at h
  rcases h with ⟨rfl, rfl⟩ | ⟨rfl, rfl⟩ | ⟨rfl, rfl⟩ | ⟨rfl, rfl⟩ | ⟨rfl, rfl⟩
  · refine executeAll_of_rewrites (by simp [Demand.opcodes]) (fun
      | [a, b, c], _ => ?_) m
    exact .cons (fun _ => .rot a b c) (.cons (fun _ => .rot b c a)
      (.cons (fun _ => .rot c a b) (.nil _)))
  · refine executeAll_of_rewrites (by simp [Demand.opcodes]) (fun
      | [a, b, c, d, e, f], _ => ?_) m
    exact .cons (fun _ => .rot2 a b c d e f) (.cons (fun _ => .rot2 c d e f a b)
      (.cons (fun _ => .rot2 e f a b c d) (.nil _)))
  · refine executeAll_of_rewrites (by simp [Demand.opcodes]) (fun
      | [a, b], _ => ?_) m
    exact .cons (fun _ => .swap a b) (.cons (fun _ => .swap b a) (.nil _))
  · refine executeAll_of_rewrites (by simp [Demand.opcodes]) (fun
      | [a, b, c, d], _ => ?_) m
    exact .cons (fun _ => .swap2 a b c d) (.cons (fun _ => .swap2 c d a b) (.nil _))
  · refine executeAll_of_rewrites (by simp [Demand.opcodes]) (fun
      | [a], _ => ?_) m
    exact .cons (fun _ => .toAlt a) (.cons (fun _ => .fromAlt a) (.nil _))

-- ---------------------------------------------------------------------------
-- Results
-- ---------------------------------------------------------------------------

/-- **Rearrangements are exact.** An opcode that knows what it reads fails just when some of
that is missing, and leaves everything as it was then. Otherwise it rewrites what it reads,
as `Rewrites` says, above whatever lies below. The two opcodes that find on top how far they
reach fail just when there is no other element there. Otherwise they put it on top, in place
of the number: the one leaves it where it was, too, and the other does not. Three rotations,
two exchanges, and putting an element aside and back have no effect, whether or not there is
enough to rotate, to exchange or to put aside. -/
theorem rearrangement_exact (rules : Rules) (script : Script) (m : Machine) :
    (∀ code demand, (code, demand) ∈ Demand.opcodes →
      (¬ demand.Met m → code.execute rules script m = .error demand.cause m) ∧
      (demand.Met m → ∃ (base : Machine) (before after : Tops), m = base.topped before ∧
        Rewrites m.stack.length code before after ∧
        code.execute rules script m = .ok () (base.topped after))) ∧
    (Addresses m.stack → ∃ top front value rest,
      m.stack = top :: (front ++ value :: rest) ∧ Number.decode top = front.length ∧
      Opcode.execute rules script 0x79 m =
        .ok () { m with stack := value :: (front ++ value :: rest) } ∧
      Opcode.execute rules script 0x7a m = .ok () { m with stack := value :: (front ++ rest) }) ∧
    (¬ Addresses m.stack →
      (∃ cause after, Opcode.execute rules script 0x79 m = .error cause after) ∧
      ∃ cause after, Opcode.execute rules script 0x7a m = .error cause after) ∧
    ∀ codes count, (codes, count) ∈ Opcode.idle →
      Opcode.executeAll rules script codes m =
        if count ≤ m.stack.length then .ok () m else .error .invalidStackOperation m := by
  rw [Opcode.execute_pick, Opcode.execute_roll]
  refine ⟨fun code demand h => Demand.governs h rules script m, ?_, ?_,
    fun codes count h => Opcode.executeAll_idle h m⟩
  · intro hAddresses
    obtain ⟨top, front, value, rest, hStack, hTop, hDepth⟩ := hAddresses.split
    have hPick := reach_of_access hTop hDepth (peek_append front rest value)
    have hRoll := reach_of_access hTop hDepth (remove_append front rest value)
    rw [← hStack] at hPick hRoll
    exact ⟨top, front, value, rest, hStack, hDepth, onStack_of_ok hPick, onStack_of_ok hRoll⟩
  · intro hNot
    obtain ⟨_, _, hPick⟩ := reach_of_not_addresses peek hNot
    obtain ⟨_, _, hRoll⟩ := reach_of_not_addresses remove hNot
    exact ⟨⟨_, _, onStack_of_error hPick⟩, _, _, onStack_of_error hRoll⟩

/-- Seven elements are enough for two pairs to go around, and their top says where the fourth
lies. Without that top they are too few. -/
theorem rearrangement_exact_seven :
    let rules : Rules := ⟨{ checkSig := fun _ _ _ => true }, Flags.none⟩
    let m := Machine.ofStack (Stack.ofItems [[1], [2], [3], [4], [5], [6], [2]])
    let fewer := Machine.ofStack (Stack.ofItems [[1], [2], [3], [4], [5]])
    Opcode.execute rules [] 0x71 m =
        .ok () (Machine.ofStack (Stack.ofItems [[1], [4], [5], [6], [2], [2], [3]])) ∧
      Opcode.execute rules [] 0x7a m =
        .ok () (Machine.ofStack (Stack.ofItems [[1], [2], [3], [5], [6], [4]])) ∧
      Opcode.execute rules [] 0x71 fewer = .error .invalidStackOperation fewer ∧
      Opcode.executeAll rules [] [0x71, 0x71, 0x71] m = .ok () m := by
  intro rules m fewer
  obtain ⟨hRewritten, hReached, -, hIdle⟩ := rearrangement_exact rules [] m
  refine ⟨?_, ?_, ?_, hIdle _ 6 (by simp [Opcode.idle])⟩
  · obtain ⟨⟨stack, alt, branches, opCount, codeStart, calls⟩, _, _, hTopped, hRewrites, hRun⟩ :=
      (hRewritten 0x71 (.main 6) (by simp [Demand.opcodes])).2 (by decide)
    rw [hRun]
    cases hRewrites with
    | rot2 a b c d e f =>
      have hFields : Machine.mk [[2], [6], [5], [4], [3], [2], [1]] [] [] 0 0 [] =
          ⟨f :: e :: d :: c :: b :: a :: stack, alt, branches, opCount, codeStart, calls⟩ := hTopped
      cases hFields
      rfl
  · obtain ⟨top, front, value, rest, hStack, hDepth, -, hRoll⟩ := hReached (by decide +kernel)
    rw [hRoll]
    obtain ⟨hTop, hBelow⟩ := List.cons.inj hStack
    have hLength : front.length = 2 := by
      have hTwo : Number.decode [2] = 2 := by decide +kernel
      rw [← hTop, hTwo] at hDepth
      omega
    match front, hLength with
    | [a, b], _ =>
      have hBelow : [[6], [5], [4], [3], [2], [1]] = a :: b :: value :: rest := hBelow
      cases hBelow
      rfl
  · obtain ⟨hRewritten, -⟩ := rearrangement_exact rules [] fewer
    exact (hRewritten 0x71 (.main 6) (by simp [Demand.opcodes])).1 (by decide)

end LegacyScript
