import LegacyScript.Proofs.Signature.Matching
import LegacyScript.Proofs.Stack.Actions
import Mathlib.Data.List.InsertIdx
import Mathlib.Logic.Equiv.Basic

/-!
# Depths and ranks

The depth of an element is counted from the top of the stack. The operations that are given
a depth fail if nothing is there, and leave the stack alone then. What they do to each other
is read off what is found at every depth afterwards: from the depth of an inserted element on,
all depths are one larger (`StackM.peek_of_insert`), and an exchange permutes the depths
(`StackM.getElem?_of_exchange`).

The program keeps the elements in a row that grows at its end. There an element is found by
its rank, the number of elements below it. Of `n` elements, the one at depth `d` has rank
`n - 1 - d`, whereas what is put at depth `d` goes above `n - d` others. `RowM` is how the
program works on the row: every index and every difference is checked, and an operation has no
outcome at all where a check fails. None ever does, for depths of any size, and the row becomes
what the operations on stacks say.

## Results

* `StackM.SucceedsIff`, with a lemma for each operation — when it succeeds, and that it leaves
  the stack alone otherwise.
* `StackM.insert_remove`, `StackM.remove_insert`        — each takes back the other.
* `StackM.exchange_comm`, `StackM.exchange_exchange`    — an exchange takes back itself.
* `RowM.Implements`, with a lemma for each operation    — the row follows the stack.
* `depths_exact`                                        — all of this.
-/

namespace LegacyScript

variable {α β : Type}

-- ---------------------------------------------------------------------------
-- Needs
-- ---------------------------------------------------------------------------

/-- An operation answers just when the stack fits. Otherwise it fails for want of elements, and
leaves the stack as it was. -/
def StackM.SucceedsIff (x : StackM α) (fits : Stack → Prop) : Prop :=
  ∀ s, (fits s → ∃ a t, x s = .ok a t) ∧ (¬ fits s → x s = .error .invalidStackOperation s)

namespace StackM

variable {s t : Stack} {value : Bytes} {a b depth : Nat}

theorem exchange_of_not_lt (h : ¬ (a < s.length ∧ b < s.length)) :
    exchange a b s = .error .invalidStackOperation s := by
  cases hEnd : exchange a b s with
  | ok u t =>
    obtain ⟨ha, hb, -⟩ := exchange_eq_ok hEnd
    exact absurd ⟨ha, hb⟩ h
  | error cause t =>
    obtain ⟨rfl, rfl⟩ := exchange_eq_error hEnd
    rfl

theorem pop_succeeds : pop.SucceedsIff fun s => 0 < s.length := by
  intro s
  cases s with
  | nil => exact ⟨fun h => absurd h (Nat.lt_irrefl 0), fun _ => pop_nil⟩
  | cons top s => exact ⟨fun _ => ⟨top, s, pop_cons top s⟩, fun h => absurd (Nat.succ_pos _) h⟩

theorem require_succeeds (depth : Nat) : (require depth).SucceedsIff fun s => depth ≤ s.length :=
  fun _ => ⟨fun h => ⟨_, _, require_of_le h⟩, fun h => require_of_lt (Nat.not_le.1 h)⟩

theorem peek_succeeds (depth : Nat) : (peek depth).SucceedsIff fun s => depth < s.length :=
  fun _ => ⟨fun h => ⟨_, _, peek_of_lt h⟩, fun h => peek_of_le (Nat.not_lt.1 h)⟩

theorem remove_succeeds (depth : Nat) : (remove depth).SucceedsIff fun s => depth < s.length :=
  fun _ => ⟨fun h => ⟨_, _, remove_of_lt h⟩, fun h => remove_of_le (Nat.not_lt.1 h)⟩

theorem insert_succeeds (depth : Nat) (value : Bytes) :
    (insert depth value).SucceedsIff fun s => depth ≤ s.length :=
  fun _ => ⟨fun h => ⟨_, _, insert_of_le value h⟩, fun h => insert_of_lt value (Nat.not_le.1 h)⟩

theorem exchange_succeeds (a b : Nat) :
    (exchange a b).SucceedsIff fun s => a < s.length ∧ b < s.length :=
  fun _ => ⟨fun ⟨ha, hb⟩ => ⟨_, _, exchange_of_lt ha hb⟩, exchange_of_not_lt⟩

-- ---------------------------------------------------------------------------
-- Laws
-- ---------------------------------------------------------------------------

theorem answer_peek (depth : Nat) (s : Stack) :
    answer (peek depth) s = s[depth]?.elim (.error .invalidStackOperation) .ok := by
  rcases Nat.lt_or_ge depth s.length with hLt | hLe
  · rw [answer_of_ok (peek_of_lt hLt), List.getElem?_eq_getElem hLt, Option.elim_some]
  · rw [answer_of_error (peek_of_le hLe), List.getElem?_eq_none hLe, Option.elim_none]

/-- What was put at a depth is taken from there. -/
theorem insert_remove (h : depth ≤ s.length) (value : Bytes) :
    (do insert depth value; remove depth) s = .ok value s := by
  have hFound : (s.insertIdx depth value)[depth]? = some value := by
    rw [List.getElem?_insertIdx_self, if_pos h]
  obtain ⟨hLt, hValue⟩ := List.getElem?_eq_some_iff.1 hFound
  rw [bind_of_ok (insert_of_le value h), remove_of_lt hLt, hValue, List.eraseIdx_insertIdx_self]

/-- What was taken from a depth is put back there. -/
theorem remove_insert (h : depth < s.length) :
    (do let value ← remove depth; insert depth value) s = .ok () s := by
  have hGap : depth ≤ (s.eraseIdx depth).length := by
    rw [List.length_eraseIdx_of_lt h]
    omega
  rw [bind_of_ok (remove_of_lt h), insert_of_le _ hGap, List.insertIdx_eraseIdx_getElem h]

/-- From the depth of an inserted element on, all depths are one larger. -/
theorem peek_of_insert (h : insert depth value s = .ok () t) (e : Nat) :
    answer (peek e) t =
      if e < depth then answer (peek e) s
      else if e = depth then .ok value
      else answer (peek (e - 1)) s := by
  rcases Nat.lt_or_ge s.length depth with hLt | hLe
  · rw [insert_of_lt value hLt] at h
    cases h
  rw [insert_of_le value hLe] at h
  cases h
  rw [answer_peek, List.getElem?_insertIdx]
  by_cases hAbove : e < depth
  · rw [if_pos hAbove, if_pos hAbove, answer_peek]
  rw [if_neg hAbove, if_neg hAbove]
  by_cases hHere : e = depth
  · rw [if_pos hHere, if_pos hHere, if_pos (hHere ▸ hLe), Option.elim_some]
  · rw [if_neg hHere, if_neg hHere, answer_peek]

/-- **An exchange permutes the depths**, and does nothing else. -/
theorem getElem?_of_exchange (h : exchange a b s = .ok () t) (e : Nat) :
    t[e]? = s[Equiv.swap a b e]? := by
  obtain ⟨ha, hb, rfl⟩ := exchange_eq_ok h
  have hbSet : b < (s.set a s[b]).length := by rwa [List.length_set]
  -- the depth `b` comes first, since it is written last, also where both are the same
  by_cases heb : e = b
  · rw [heb, Equiv.swap_apply_right, List.getElem?_set_self hbSet, List.getElem?_eq_getElem ha]
  rw [List.getElem?_set_ne (Ne.symm heb)]
  by_cases hea : e = a
  · rw [hea, Equiv.swap_apply_left, List.getElem?_set_self ha, List.getElem?_eq_getElem hb]
  · rw [Equiv.swap_apply_of_ne_of_ne hea heb, List.getElem?_set_ne (Ne.symm hea)]

theorem peek_of_exchange (h : exchange a b s = .ok () t) (e : Nat) :
    answer (peek e) t = answer (peek (Equiv.swap a b e)) s := by
  rw [answer_peek, answer_peek, getElem?_of_exchange h]

/-- It does not matter which of the two depths comes first, even where an exchange fails. -/
theorem exchange_comm (a b : Nat) : exchange a b = exchange b a := by
  funext s
  by_cases h : a < s.length ∧ b < s.length
  · have hFirst := exchange_of_lt h.1 h.2
    have hSecond := exchange_of_lt h.2 h.1
    rw [hFirst, hSecond]
    congr 1
    refine List.ext_getElem? fun e => ?_
    rw [getElem?_of_exchange hFirst, getElem?_of_exchange hSecond, Equiv.swap_comm]
  · rw [exchange_of_not_lt h, exchange_of_not_lt (mt And.symm h)]

theorem exchange_exchange (ha : a < s.length) (hb : b < s.length) :
    (do exchange a b; exchange a b) s = .ok () s := by
  have hFirst := exchange_of_lt ha hb
  generalize hNext : (s.set a s[b]).set b s[a] = t at hFirst
  have hLength : t.length = s.length := by rw [← hNext, List.length_set, List.length_set]
  have hSecond := exchange_of_lt (hLength.symm ▸ ha) (hLength.symm ▸ hb)
  rw [bind_of_ok hFirst, hSecond]
  congr 1
  refine List.ext_getElem? fun e => ?_
  rw [getElem?_of_exchange hSecond, getElem?_of_exchange hFirst, Equiv.swap_apply_self]

end StackM

-- ---------------------------------------------------------------------------
-- Ranks
-- ---------------------------------------------------------------------------

theorem insertIdx_length_append (front rest : List α) (a : α) :
    (front ++ rest).insertIdx front.length a = front ++ a :: rest := by
  rw [insertIdx_append_of_le (Nat.le_refl _), List.insertIdx_length_self, List.append_assoc,
    List.singleton_append]

namespace Stack

variable {s : Stack} {depth : Nat}

theorem length_items (s : Stack) : s.items.length = s.length := List.length_reverse

theorem items_append (front rest : Stack) : items (front ++ rest) = items rest ++ items front :=
  List.reverse_append

theorem items_append_cons (front rest : Stack) (value : Bytes) :
    items (front ++ value :: rest) = items rest ++ value :: items front := by
  simp [items]

/-- The gap at a depth, with what is above and what is below it. -/
theorem exists_gap (h : depth ≤ s.length) : ∃ front rest,
    s = front ++ rest ∧ depth = front.length ∧ s.length - depth = rest.length :=
  ⟨s.take depth, s.drop depth, (List.take_append_drop depth s).symm,
    (List.length_take_of_le h).symm, (List.length_drop ..).symm⟩

/-- The element at a depth, with what is above and what is below it. -/
theorem exists_split (h : depth < s.length) : ∃ front value rest,
    s = front ++ value :: rest ∧ depth = front.length ∧ s.length - 1 - depth = rest.length := by
  obtain ⟨front, value, rest, rfl, rfl⟩ := exists_split_of_lt h
  refine ⟨front, value, rest, rfl, rfl, ?_⟩
  rw [List.length_append, List.length_cons]
  omega

theorem getElem?_items (h : depth < s.length) : s.items[s.length - 1 - depth]? = some s[depth] := by
  rw [← List.getElem?_eq_getElem h]
  exact List.getElem?_reverse' (by omega)

theorem items_eraseIdx (h : depth < s.length) :
    items (s.eraseIdx depth) = s.items.eraseIdx (s.length - 1 - depth) := by
  obtain ⟨front, value, rest, rfl, rfl, hRank⟩ := exists_split h
  rw [hRank, items_append_cons, ← length_items rest,
    List.eraseIdx_append_of_length_le (Nat.le_refl _),
    List.eraseIdx_append_of_length_le (Nat.le_refl _)]
  simp [items]

theorem items_set (h : depth < s.length) (value : Bytes) :
    items (s.set depth value) = s.items.set (s.length - 1 - depth) value := by
  obtain ⟨front, old, rest, rfl, rfl, hRank⟩ := exists_split h
  rw [hRank, items_append_cons, ← length_items rest,
    List.set_append_right _ _ (Nat.le_refl _), List.set_append_right _ _ (Nat.le_refl _)]
  simp [items]

theorem items_insertIdx (h : depth ≤ s.length) (value : Bytes) :
    items (s.insertIdx depth value) = s.items.insertIdx (s.length - depth) value := by
  obtain ⟨front, rest, rfl, rfl, hRank⟩ := exists_gap h
  rw [hRank, insertIdx_length_append, items_append_cons, items_append, ← length_items rest,
    insertIdx_length_append]

end Stack

-- ---------------------------------------------------------------------------
-- Operations on rows
-- ---------------------------------------------------------------------------

/-- An operation on elements that are given from the bottom up. It has no outcome where it
would index out of range, or where a difference would be below zero. -/
abbrev RowM := ExceptT ScriptError (StateT (List Bytes) Option)

namespace RowM

/-- What an operation answers, or why it fails, with the row that it leaves. -/
def outcome (x : RowM α) (row : List Bytes) : Option (Except ScriptError α × List Bytes) :=
  x.run.run row

/-! ### By rank -/

/-- The element of a rank. -/
def getAt (rank : Nat) : RowM Bytes := do
  let row ← get
  row[rank]?

/-- Takes the element of a rank. -/
def removeAt (rank : Nat) : RowM Bytes := do
  let row ← get
  let value ← row[rank]?
  set (row.eraseIdx rank)
  pure value

/-- Puts an element where it then has the given rank. -/
def insertAt (rank : Nat) (value : Bytes) : RowM Unit := do
  let row ← get
  -- one past the last element is still in range
  let _ ← difference? row.length rank
  set (row.insertIdx rank value)

/-- Exchanges the elements of two ranks. -/
def exchangeAt (i j : Nat) : RowM Unit := do
  let row ← get
  let x ← row[i]?
  let y ← row[j]?
  set ((row.set i y).set j x)

/-! ### By depth -/

/-- The rank of the element at a depth. -/
def rankOf (depth : Nat) : RowM Nat := do
  let row ← get
  if row.length ≤ depth then throw .invalidStackOperation
  let last ← difference? row.length 1
  difference? last depth

/-- Takes the last element, which is the top. -/
def pop : RowM Bytes := do
  let row ← get
  match row.getLast? with
  | some value => do
    set row.dropLast
    pure value
  | none => throw .invalidStackOperation

/-- Fails when there are fewer elements than demanded. -/
def require (depth : Nat) : RowM Unit := do
  let row ← get
  if row.length < depth then throw .invalidStackOperation

/-- The element at a depth, which stays. -/
def peek (depth : Nat) : RowM Bytes := do
  let rank ← rankOf depth
  getAt rank

/-- Takes the element at a depth. -/
def remove (depth : Nat) : RowM Bytes := do
  let rank ← rankOf depth
  removeAt rank

/-- Puts an element where it then has the given depth. -/
def insert (depth : Nat) (value : Bytes) : RowM Unit := do
  let row ← get
  -- here the difference is itself the check of the depth
  match difference? row.length depth with
  | some rank => insertAt rank value
  | none => throw .invalidStackOperation

/-- Exchanges the elements at two depths. -/
def exchange (a b : Nat) : RowM Unit := do
  let i ← rankOf a
  let j ← rankOf b
  exchangeAt i j

/-! ### What they do -/

section Lines

variable {x : RowM α} {f : α → RowM β} {row next : List Bytes} {a : α} {cause : ScriptError}

theorem bind_of_ok (h : x.outcome row = some (.ok a, next)) :
    (x >>= f).outcome row = (f a).outcome next := by
  unfold outcome at h ⊢
  rw [ExceptT.run_bind, StateT.run_bind, h]
  rfl

theorem bind_of_error (h : x.outcome row = some (.error cause, next)) :
    (x >>= f).outcome row = some (.error cause, next) := by
  unfold outcome at h ⊢
  rw [ExceptT.run_bind, StateT.run_bind, h]
  rfl

theorem get_outcome (row : List Bytes) : outcome get row = some (.ok row, row) := rfl

theorem lift_of_some {o : Option α} (h : o = some a) (row : List Bytes) :
    outcome (liftM o) row = some (.ok a, row) := by
  rw [h]
  rfl

end Lines

variable {row : List Bytes} {rank depth : Nat} {value : Bytes}

theorem getAt_of_some (h : row[rank]? = some value) :
    (getAt rank).outcome row = some (.ok value, row) := by
  unfold getAt
  rw [bind_of_ok (get_outcome row)]
  exact lift_of_some h row

theorem removeAt_of_some (h : row[rank]? = some value) :
    (removeAt rank).outcome row = some (.ok value, row.eraseIdx rank) := by
  unfold removeAt
  rw [bind_of_ok (get_outcome row), bind_of_ok (lift_of_some h row)]
  rfl

theorem insertAt_of_le (h : rank ≤ row.length) (value : Bytes) :
    (insertAt rank value).outcome row = some (.ok (), row.insertIdx rank value) := by
  have hInRange : difference? row.length rank = some (row.length - rank) := if_pos h
  unfold insertAt
  rw [bind_of_ok (get_outcome row), bind_of_ok (lift_of_some hInRange row)]
  rfl

theorem exchangeAt_of_some {i j : Nat} {x y : Bytes} (hx : row[i]? = some x)
    (hy : row[j]? = some y) :
    (exchangeAt i j).outcome row = some (.ok (), (row.set i y).set j x) := by
  unfold exchangeAt
  rw [bind_of_ok (get_outcome row), bind_of_ok (lift_of_some hx row),
    bind_of_ok (lift_of_some hy row)]
  rfl

theorem rankOf_of_le (h : row.length ≤ depth) :
    (rankOf depth).outcome row = some (.error .invalidStackOperation, row) := by
  unfold rankOf
  rw [bind_of_ok (get_outcome row), if_pos h]
  rfl

theorem rankOf_of_lt (h : depth < row.length) :
    (rankOf depth).outcome row = some (.ok (row.length - 1 - depth), row) := by
  have hLast : difference? row.length 1 = some (row.length - 1) := if_pos (by omega)
  have hRank : difference? (row.length - 1) depth = some (row.length - 1 - depth) :=
    if_pos (by omega)
  unfold rankOf
  rw [bind_of_ok (get_outcome row), if_neg (Nat.not_le.2 h), bind_of_ok (lift_of_some hLast row)]
  exact lift_of_some hRank row

-- ---------------------------------------------------------------------------
-- The row follows the stack
-- ---------------------------------------------------------------------------

/-- The operation on rows does to the elements from the bottom up what the one on stacks does
to them from the top down. In particular it has an outcome. -/
def Implements (x : RowM α) (y : StackM α) : Prop :=
  ∀ s : Stack, x.outcome s.items = some (answer y s, Stack.items (leaves y s))

variable {s : Stack}

/-- Where an operation on stacks succeeds it has to be followed, and where it fails the row has
to be left as it was. -/
theorem implements_of_succeedsIff {x : RowM α} {y : StackM α} {fits : Stack → Prop}
    (hNeeds : y.SucceedsIff fits)
    (hFits : ∀ s, fits s → ∃ a t, y s = .ok a t ∧ x.outcome s.items = some (.ok a, t.items))
    (hNot : ∀ s, ¬ fits s →
      x.outcome s.items = some (.error .invalidStackOperation, s.items)) : x.Implements y := by
  intro s
  by_cases h : fits s
  · obtain ⟨a, t, hOk, hRow⟩ := hFits s h
    rw [hRow, answer_of_ok hOk, leaves_of_ok hOk]
  · have hError := (hNeeds s).2 h
    rw [hNot s h, answer_of_error hError, leaves_of_error hError]

theorem rankOf_items (h : depth < s.length) :
    (rankOf depth).outcome s.items = some (.ok (s.length - 1 - depth), s.items) := by
  rw [rankOf_of_lt (h.trans_eq (Stack.length_items s).symm), Stack.length_items]

theorem rankOf_items_of_not_lt (h : ¬ depth < s.length) :
    (rankOf depth).outcome s.items = some (.error .invalidStackOperation, s.items) :=
  rankOf_of_le ((Stack.length_items s).trans_le (Nat.not_lt.1 h))

theorem pop_implements : pop.Implements StackM.pop := by
  intro s
  unfold pop
  rw [bind_of_ok (get_outcome s.items)]
  cases s with
  | nil => rfl
  | cons top s =>
    have hItems : Stack.items (top :: s) = Stack.items s ++ [top] := List.reverse_cons
    rw [hItems, List.getLast?_concat, List.dropLast_concat]
    rfl

theorem require_implements (depth : Nat) : (require depth).Implements (StackM.require depth) := by
  refine implements_of_succeedsIff (StackM.require_succeeds depth) ?_ ?_
  · intro s h
    refine ⟨_, _, StackM.require_of_le h, ?_⟩
    unfold require
    rw [bind_of_ok (get_outcome s.items), Stack.length_items, if_neg (Nat.not_lt.2 h)]
    rfl
  · intro s h
    unfold require
    rw [bind_of_ok (get_outcome s.items), Stack.length_items, if_pos (Nat.not_le.1 h)]
    rfl

theorem peek_implements (depth : Nat) : (peek depth).Implements (StackM.peek depth) := by
  refine implements_of_succeedsIff (StackM.peek_succeeds depth) ?_ ?_
  · intro s h
    refine ⟨_, _, StackM.peek_of_lt h, ?_⟩
    unfold peek
    rw [bind_of_ok (rankOf_items h), getAt_of_some (Stack.getElem?_items h)]
  · intro s h
    exact bind_of_error (rankOf_items_of_not_lt h)

theorem remove_implements (depth : Nat) : (remove depth).Implements (StackM.remove depth) := by
  refine implements_of_succeedsIff (StackM.remove_succeeds depth) ?_ ?_
  · intro s h
    refine ⟨_, _, StackM.remove_of_lt h, ?_⟩
    unfold remove
    rw [bind_of_ok (rankOf_items h), removeAt_of_some (Stack.getElem?_items h),
      Stack.items_eraseIdx h]
  · intro s h
    exact bind_of_error (rankOf_items_of_not_lt h)

theorem insert_implements (depth : Nat) (value : Bytes) :
    (insert depth value).Implements (StackM.insert depth value) := by
  refine implements_of_succeedsIff (StackM.insert_succeeds depth value) ?_ ?_
  · intro s h
    refine ⟨_, _, StackM.insert_of_le value h, ?_⟩
    have hRank : difference? s.length depth = some (s.length - depth) := if_pos h
    have hInRange : s.length - depth ≤ s.items.length :=
      (Nat.sub_le ..).trans_eq (Stack.length_items s).symm
    unfold insert
    rw [bind_of_ok (get_outcome s.items), Stack.length_items, hRank, Stack.items_insertIdx h]
    exact insertAt_of_le hInRange value
  · intro s h
    have hNone : difference? s.length depth = none := if_neg h
    unfold insert
    rw [bind_of_ok (get_outcome s.items), Stack.length_items, hNone]
    rfl

theorem exchange_implements (a b : Nat) : (exchange a b).Implements (StackM.exchange a b) := by
  refine implements_of_succeedsIff (StackM.exchange_succeeds a b) ?_ ?_
  · rintro s ⟨ha, hb⟩
    refine ⟨_, _, StackM.exchange_of_lt ha hb, ?_⟩
    have hbSet : b < (s.set a s[b]).length := by rwa [List.length_set]
    unfold exchange
    rw [bind_of_ok (rankOf_items ha), bind_of_ok (rankOf_items hb),
      exchangeAt_of_some (Stack.getElem?_items ha) (Stack.getElem?_items hb),
      Stack.items_set hbSet, Stack.items_set ha, List.length_set]
  · intro s h
    unfold exchange
    by_cases ha : a < s.length
    · have hb : ¬ b < s.length := fun hb => h ⟨ha, hb⟩
      rw [bind_of_ok (rankOf_items ha), bind_of_error (rankOf_items_of_not_lt hb)]
    · rw [bind_of_error (rankOf_items_of_not_lt ha)]

end RowM

-- ---------------------------------------------------------------------------
-- Results
-- ---------------------------------------------------------------------------

open StackM

/-- **Depths are exact.** On the row, no operation indexes out of range or takes a difference
below zero, and each does what is said of stacks, for depths of any size. An operation that
fails leaves the stack as it was. An element is looked up or taken just where there is one, and
put just where there are enough others to lie above it. To put an element and to take it undo
each other, and an element that is put moves what is found from its depth on down by one. An
exchange does not depend on the order of its depths, undoes itself, and exchanges what is found
at these two depths, and nothing else. -/
theorem depths_exact (value : Bytes) (depth other : Nat) :
    (RowM.pop.Implements pop ∧
      (RowM.require depth).Implements (require depth) ∧
      (RowM.peek depth).Implements (peek depth) ∧
      (RowM.remove depth).Implements (remove depth) ∧
      (RowM.insert depth value).Implements (StackM.insert depth value) ∧
      (RowM.exchange depth other).Implements (exchange depth other)) ∧
    (pop.SucceedsIff (fun s => 0 < s.length) ∧
      (require depth).SucceedsIff (fun s => depth ≤ s.length) ∧
      (peek depth).SucceedsIff (fun s => depth < s.length) ∧
      (remove depth).SucceedsIff (fun s => depth < s.length) ∧
      (StackM.insert depth value).SucceedsIff (fun s => depth ≤ s.length) ∧
      (exchange depth other).SucceedsIff (fun s => depth < s.length ∧ other < s.length)) ∧
    (∀ s : Stack, depth ≤ s.length → (do StackM.insert depth value; remove depth) s = .ok value s) ∧
    (∀ s : Stack, depth < s.length →
      (do let taken ← remove depth; StackM.insert depth taken) s = .ok () s) ∧
    (∀ s t, StackM.insert depth value s = .ok () t → ∀ e,
      answer (peek e) t =
        if e < depth then answer (peek e) s
        else if e = depth then .ok value
        else answer (peek (e - 1)) s) ∧
    exchange depth other = exchange other depth ∧
    (∀ s : Stack, depth < s.length → other < s.length →
      (do exchange depth other; exchange depth other) s = .ok () s) ∧
    ∀ s t, exchange depth other s = .ok () t → ∀ e,
      answer (peek e) t = answer (peek (Equiv.swap depth other e)) s := by
  refine ⟨⟨RowM.pop_implements, RowM.require_implements depth, RowM.peek_implements depth,
    RowM.remove_implements depth, RowM.insert_implements depth value,
    RowM.exchange_implements depth other⟩,
    ⟨pop_succeeds, require_succeeds depth, peek_succeeds depth, remove_succeeds depth,
      insert_succeeds depth value, exchange_succeeds depth other⟩, ?_, ?_, ?_, ?_, ?_, ?_⟩
  · exact fun s h => insert_remove h value
  · exact fun s h => remove_insert h
  · exact fun s t h => peek_of_insert h
  · exact exchange_comm depth other
  · exact fun s ha hb => exchange_exchange ha hb
  · exact fun s t h => peek_of_exchange h

/-- Below three elements there is a place for a fourth one. With another element right above it,
the lowest is found one deeper. At the largest depth of sixty-four bits there is none to take. -/
theorem depths_exact_three :
    let s := Stack.ofItems [[1], [2], [3]]
    let deepest := 2 ^ 64 - 1
    (do StackM.insert 3 [9]; remove 3) s = .ok [9] s ∧
      (do let taken ← remove 2; StackM.insert 2 taken) s = .ok () s ∧
      answer (peek 3) (Stack.ofItems [[1], [9], [2], [3]]) = .ok [1] ∧
      (do exchange 2 0; exchange 2 0) s = .ok () s ∧
      answer (peek 0) (Stack.ofItems [[3], [2], [1]]) = .ok [1] ∧
      remove deepest s = .error .invalidStackOperation s ∧
      (RowM.remove deepest).outcome s.items = some (.error .invalidStackOperation, s.items) := by
  intro s deepest
  obtain ⟨-, -, hInsertRemove, -⟩ := depths_exact [9] 3 0
  obtain ⟨-, -, -, hRemoveInsert, hInserted, -, hTwice, hExchanged⟩ := depths_exact [9] 2 0
  obtain ⟨⟨-, -, -, hRow, -⟩, ⟨-, -, -, hNeeds, -⟩, -⟩ := depths_exact [9] deepest 0
  have hNone : remove deepest s = .error .invalidStackOperation s := (hNeeds s).2 (by decide)
  refine ⟨hInsertRemove s (by decide), hRemoveInsert s (by decide), ?_,
    hTwice s (by decide) (by decide), ?_, hNone, ?_⟩
  · exact hInserted s (Stack.ofItems [[1], [9], [2], [3]]) rfl 3
  · exact hExchanged s (Stack.ofItems [[3], [2], [1]]) rfl 0
  · rw [hRow s, answer_of_error hNone, leaves_of_error hNone]

end LegacyScript
