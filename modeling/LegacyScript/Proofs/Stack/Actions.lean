import LegacyScript.Proofs.Machine.Actions
import LegacyScript.Proofs.Number.Length

/-!
# What operations on the stack are made of

Every operation on the main stack is a sequence of a few basic actions, which take,
copy, move and put single elements. `StackM.Tame` is the class of actions that are
made of these, and the one place where the operations are walked through line by
line. The index `Effects` says what the elements that are put have in common, and
why the action may fail. `OP_DEPTH` is not tame: it is the only operation that sees
how many elements lie below those it takes.

What holds of the basic actions and carries over from line to line then holds of
every operation.

## Results

* `Tame.framed`  — elements below are neither seen nor touched.
* `Tame.keeps`   — what the elements of a stack have in common, they keep.
* `Tame.fails`   — the causes of failure.
* `StackOp.run_tame`, `UnaryOp.run_tame`, ... — the operations are tame.
-/

namespace LegacyScript

/-- What is known of an action before it is done. -/
structure Effects where
  /-- Holds of the elements that it puts on a stack, if it holds of those that it takes. -/
  good : Bytes → Prop
  /-- Why it may fail, apart from a want of elements. -/
  causes : List ScriptError
  /-- Whether it may write to the books of the machine: count operations, ask the checker,
  or move the beginning of the script code. -/
  books : Prop

variable {e : Effects} {α β : Type}

-- ---------------------------------------------------------------------------
-- Frames
-- ---------------------------------------------------------------------------

/-- What an action answers, it answers just so in a larger state, and leaves what the
state is larger by. -/
def Framed {State : Type} (frame : State → State) (x : EStateM ScriptError State α) : Prop :=
  ∀ s a t, x s = .ok a t → x (frame s) = .ok a (frame t)

theorem Framed.bind {State : Type} {frame : State → State} {x : EStateM ScriptError State α}
    {f : α → EStateM ScriptError State β} (hx : Framed frame x)
    (hf : ∀ s a t, x s = .ok a t → Framed frame (f a)) : Framed frame (x >>= f) := by
  intro s b t h
  obtain ⟨a, u, hFirst, hRest⟩ := bind_eq_ok_iff.1 h
  rw [bind_of_ok (hx s a u hFirst)]
  exact hf s a u hFirst u b t hRest

-- ---------------------------------------------------------------------------
-- Ends
-- ---------------------------------------------------------------------------

/-- How an action ends: what holds of its answer, why it fails, and what holds of the state
that is left in both cases. -/
def Ends {State : Type} (e : Effects) (Q : α → Prop) (P : State → Prop) :
    EStateM.Result ScriptError State α → Prop
  | .ok a t => Q a ∧ P t
  | .error cause t => (cause = .invalidStackOperation ∨ cause ∈ e.causes) ∧ P t

/-- A line that ends well lets the next one begin. -/
theorem Ends.bind {State : Type} {Q : α → Prop} {R : β → Prop} {P : State → Prop}
    {x : EStateM ScriptError State α} {f : α → EStateM ScriptError State β} {s : State}
    (hx : Ends e Q P (x s)) (hf : ∀ a t, Q a → P t → Ends e R P (f a t)) :
    Ends e R P ((x >>= f) s) := by
  cases h : x s with
  | ok a t =>
    rw [h] at hx
    rw [bind_of_ok h]
    exact hf a t hx.1 hx.2
  | error cause t =>
    rw [h] at hx
    rw [bind_of_error h]
    exact hx

theorem Ends.leaves {State : Type} {Q : α → Prop} {P : State → Prop}
    {x : EStateM ScriptError State α} {s : State} (h : Ends e Q P (x s)) : P (leaves x s) := by
  cases hEnd : x s with
  | ok a t =>
    rw [hEnd] at h
    rw [leaves_of_ok hEnd]
    exact h.2
  | error cause t =>
    rw [hEnd] at h
    rw [leaves_of_error hEnd]
    exact h.2

-- ---------------------------------------------------------------------------
-- Basic actions
-- ---------------------------------------------------------------------------

theorem insertIdx_append_of_le {l : List α} {i : Nat} (h : i ≤ l.length) (a : α) (below : List α) :
    (l ++ below).insertIdx i a = l.insertIdx i a ++ below := by
  induction l generalizing i with
  | nil =>
    obtain rfl : i = 0 := Nat.le_zero.1 h
    rfl
  | cons b l ih =>
    cases i with
    | zero => rfl
    | succ i =>
      rw [List.cons_append, List.insertIdx_succ_cons, List.insertIdx_succ_cons,
        ih (Nat.le_of_succ_le_succ h), List.cons_append]

/-- A stack of more than `n` elements is `n` elements, one more, and the others. -/
theorem exists_split_of_lt {s : Stack} {n : Nat} (h : n < s.length) :
    ∃ values top below, s = values ++ top :: below ∧ values.length = n :=
  ⟨s.take n, s[n], s.drop (n + 1), by rw [List.getElem_cons_drop, List.take_append_drop],
    List.length_take_of_le (Nat.le_of_lt h)⟩

namespace StackM

variable (below : Stack)

theorem pop_framed : Framed (· ++ below) pop := by
  intro s value t h
  cases s with
  | nil => cases h
  | cons top s =>
    cases h
    rfl

theorem require_framed (depth : Nat) : Framed (· ++ below) (require depth) := by
  intro s u t h
  rcases Nat.lt_or_ge s.length depth with hLt | hLe
  · rw [require_of_lt hLt] at h
    cases h
  · rw [require_of_le hLe] at h
    cases h
    refine require_of_le ?_
    rw [List.length_append]
    omega

theorem peek_framed (depth : Nat) : Framed (· ++ below) (peek depth) := by
  intro s value t h
  rcases Nat.lt_or_ge depth s.length with hLt | hLe
  · rw [peek_of_lt hLt] at h
    cases h
    have hMore : depth < (s ++ below).length := by
      rw [List.length_append]
      omega
    rw [peek_of_lt hMore, List.getElem_append_left hLt]
  · rw [peek_of_le hLe] at h
    cases h

theorem remove_framed (depth : Nat) : Framed (· ++ below) (remove depth) := by
  intro s value t h
  rcases Nat.lt_or_ge depth s.length with hLt | hLe
  · rw [remove_of_lt hLt] at h
    cases h
    have hMore : depth < (s ++ below).length := by
      rw [List.length_append]
      omega
    rw [remove_of_lt hMore, List.getElem_append_left hLt, List.eraseIdx_append_of_lt_length hLt]
  · rw [remove_of_le hLe] at h
    cases h

theorem insert_framed (depth : Nat) (value : Bytes) :
    Framed (· ++ below) (insert depth value) := by
  intro s u t h
  rcases Nat.lt_or_ge s.length depth with hLt | hLe
  · rw [insert_of_lt value hLt] at h
    cases h
  · rw [insert_of_le value hLe] at h
    cases h
    have hMore : depth ≤ (s ++ below).length := by
      rw [List.length_append]
      omega
    rw [insert_of_le value hMore, insertIdx_append_of_le hLe]

/-- Elements are exchanged just when both depths are populated. -/
theorem exchange_eq_ok {a b : Nat} {s t : Stack} (h : exchange a b s = .ok () t) :
    ∃ (ha : a < s.length) (hb : b < s.length), t = (s.set a s[b]).set b s[a] := by
  unfold exchange at h
  split at h
  · next x y hx hy =>
    obtain ⟨ha, rfl⟩ := List.getElem?_eq_some_iff.1 hx
    obtain ⟨hb, rfl⟩ := List.getElem?_eq_some_iff.1 hy
    cases h
    exact ⟨ha, hb, rfl⟩
  · cases h

theorem exchange_eq_error {a b : Nat} {s t : Stack} {cause : ScriptError}
    (h : exchange a b s = .error cause t) : cause = .invalidStackOperation ∧ t = s := by
  unfold exchange at h
  split at h
  · cases h
  · rw [underflow_eq] at h
    cases h
    exact ⟨rfl, rfl⟩

theorem exchange_framed (a b : Nat) : Framed (· ++ below) (exchange a b) := by
  intro s u t h
  obtain ⟨ha, hb, rfl⟩ := exchange_eq_ok h
  have haMore : a < (s ++ below).length := by
    rw [List.length_append]
    omega
  have hbMore : b < (s ++ below).length := by
    rw [List.length_append]
    omega
  have hbSet : b < (s.set a s[b]).length := by rwa [List.length_set]
  rw [exchange_of_lt haMore hbMore, List.getElem_append_left ha, List.getElem_append_left hb,
    List.set_append_left a _ ha, List.set_append_left b _ hbSet]

theorem popNumber_of_parse {value : Bytes} {n : Int} {s : Stack}
    (h : Number.parse value Number.maxSize = .ok n) : popNumber (value :: s) = .ok n s := by
  unfold popNumber
  rw [bind_of_ok (pop_cons value s), h]
  rfl

theorem popNumber_of_le {value : Bytes} {s : Stack} (h : value.length ≤ 4) :
    popNumber (value :: s) = .ok (Number.decode value) s :=
  popNumber_of_parse (if_neg (Nat.not_lt.2 h))

/-- An element that is too long for a number is taken, too. -/
theorem popNumber_of_lt {value : Bytes} {s : Stack} (h : 4 < value.length) :
    popNumber (value :: s) = .error .numOverflow s := by
  have hParse : Number.parse value Number.maxSize = .error .numOverflow := if_pos h
  unfold popNumber
  rw [bind_of_ok (pop_cons value s), hParse]
  rfl

/-- Takes no element and answers `n`, if that is the depth of an element. -/
def asDepth (n : Int) : StackM Nat := do
  let s ← get
  if 0 ≤ n ∧ n < s.length then pure n.toNat else underflow

theorem asDepth_eq (n : Int) (s : Stack) :
    asDepth n s = if 0 ≤ n ∧ n < s.length then .ok n.toNat s
      else .error .invalidStackOperation s := by
  show (if 0 ≤ n ∧ n < s.length then (Pure.pure n.toNat : StackM Nat) else underflow) s = _
  split <;> rfl

theorem asDepth_framed (n : Int) : Framed (· ++ below) (asDepth n) := by
  intro s depth t h
  rw [asDepth_eq] at h
  split at h
  · next hRange =>
    cases h
    have hMore : 0 ≤ n ∧ n < (s ++ below).length := by
      rw [List.length_append]
      omega
    rw [asDepth_eq, if_pos hMore]
  · cases h

-- ---------------------------------------------------------------------------
-- Tame actions
-- ---------------------------------------------------------------------------

/-- The actions made of basic ones, with what holds of their answers. -/
inductive Tame (e : Effects) : {α : Type} → (α → Prop) → StackM α → Prop
  | pure {α : Type} {Q : α → Prop} {a : α} (h : Q a) : Tame e Q (pure a)
  | throw {α : Type} {Q : α → Prop} {cause : ScriptError} (h : cause ∈ e.causes) :
      Tame e Q (throw cause)
  | push {value : Bytes} (h : e.good value) : Tame e (fun _ => True) (push value)
  | pop : Tame e e.good pop
  | require (depth : Nat) : Tame e (fun _ => True) (require depth)
  | peek (depth : Nat) : Tame e e.good (peek depth)
  | remove (depth : Nat) : Tame e e.good (remove depth)
  | insert (depth : Nat) {value : Bytes} (h : e.good value) :
      Tame e (fun _ => True) (insert depth value)
  | exchange (a b : Nat) : Tame e (fun _ => True) (exchange a b)
  | asDepth (n : Int) : Tame e (fun _ => True) (asDepth n)
  | bind {α β : Type} {Q : α → Prop} {R : β → Prop} {x : StackM α} {f : α → StackM β}
      (hx : Tame e Q x) (hf : ∀ a, Q a → Tame e R (f a)) : Tame e R (x >>= f)

variable {Q : α → Prop} {x : StackM α}

/-- **What is known of a tame action comes true**, on a stack of good elements. -/
theorem Tame.ends (h : Tame e Q x) {s : Stack} (hGood : ∀ value ∈ s, e.good value) :
    Ends e Q (fun t => ∀ value ∈ t, e.good value) (x s) := by
  induction h generalizing s with
  | pure h => exact ⟨h, hGood⟩
  | throw h => exact ⟨.inr h, hGood⟩
  | push h =>
    refine ⟨trivial, ?_⟩
    intro other hOther
    rcases List.mem_cons.1 hOther with rfl | hBelow
    · exact h
    · exact hGood other hBelow
  | pop =>
    cases s with
    | nil => exact ⟨.inl rfl, hGood⟩
    | cons top s =>
      exact ⟨hGood top (List.mem_cons_self ..), fun v hv => hGood v (List.mem_cons_of_mem _ hv)⟩
  | require depth =>
    rcases Nat.lt_or_ge s.length depth with hLt | hLe
    · rw [require_of_lt hLt]
      exact ⟨.inl rfl, hGood⟩
    · rw [require_of_le hLe]
      exact ⟨trivial, hGood⟩
  | peek depth =>
    rcases Nat.lt_or_ge depth s.length with hLt | hLe
    · rw [peek_of_lt hLt]
      exact ⟨hGood _ (List.getElem_mem hLt), hGood⟩
    · rw [peek_of_le hLe]
      exact ⟨.inl rfl, hGood⟩
  | remove depth =>
    rcases Nat.lt_or_ge depth s.length with hLt | hLe
    · rw [remove_of_lt hLt]
      exact ⟨hGood _ (List.getElem_mem hLt), fun v hv => hGood v (List.mem_of_mem_eraseIdx hv)⟩
    · rw [remove_of_le hLe]
      exact ⟨.inl rfl, hGood⟩
  | insert depth h =>
    rcases Nat.lt_or_ge s.length depth with hLt | hLe
    · rw [insert_of_lt _ hLt]
      exact ⟨.inl rfl, hGood⟩
    · rw [insert_of_le _ hLe]
      refine ⟨trivial, ?_⟩
      intro other hOther
      rcases (List.mem_insertIdx hLe).1 hOther with rfl | hOld
      · exact h
      · exact hGood other hOld
  | exchange a b =>
    cases hEnd : StackM.exchange a b s with
    | ok u t =>
      obtain ⟨ha, hb, rfl⟩ := exchange_eq_ok hEnd
      refine ⟨trivial, ?_⟩
      intro other hOther
      rcases List.mem_or_eq_of_mem_set hOther with hOther | rfl
      · rcases List.mem_or_eq_of_mem_set hOther with hOld | rfl
        · exact hGood other hOld
        · exact hGood _ (List.getElem_mem hb)
      · exact hGood _ (List.getElem_mem ha)
    | error cause t =>
      obtain ⟨rfl, rfl⟩ := exchange_eq_error hEnd
      exact ⟨.inl rfl, hGood⟩
  | asDepth n =>
    rw [asDepth_eq]
    split
    · exact ⟨trivial, hGood⟩
    · exact ⟨.inl rfl, hGood⟩
  | bind _ _ ihx ihf => exact (ihx hGood).bind fun a t hAnswer hLeft => ihf a hAnswer hLeft

/-- **Tame actions neither see nor touch what lies below** the elements that they need. -/
theorem Tame.framed (h : Tame e Q x) (hGood : ∀ value, e.good value) (below : Stack) :
    Framed (· ++ below) x := by
  induction h with
  | pure h =>
    intro s a t h
    cases h
    rfl
  | throw h =>
    intro s a t h
    cases h
  | push h =>
    intro s a t h
    cases h
    rfl
  | pop => exact pop_framed below
  | require depth => exact require_framed below depth
  | peek depth => exact peek_framed below depth
  | remove depth => exact remove_framed below depth
  | insert depth h => exact insert_framed below depth _
  | exchange a b => exact exchange_framed below a b
  | asDepth n => exact asDepth_framed below n
  | bind hx _ ihx ihf =>
    refine ihx.bind fun s a t hFirst => ihf a ?_
    -- the second line is tame for answers such as the first one gives
    have hEnds := hx.ends (s := s) fun value _ => hGood value
    rw [hFirst] at hEnds
    exact hEnds.1

end StackM

-- ---------------------------------------------------------------------------
-- The operations
-- ---------------------------------------------------------------------------

/-- What holds of the elements that operations make by themselves. -/
structure Closed (good : Bytes → Prop) : Prop where
  /-- The numbers that come of arithmetic. -/
  number (n : Int) : n.natAbs < 2 ^ 32 → good (Number.encode n)
  size (value : Bytes) : good value → good (Number.encode value.length)
  digest (d : Digest) (message : Bytes) : good (d.apply message)

theorem closed_true : Closed fun _ => True :=
  ⟨fun _ _ => trivial, fun _ _ => trivial, fun _ _ => trivial⟩

theorem UnaryOp.natAbs_apply_lt (op : UnaryOp) {n : Int} (h : n.natAbs < 2 ^ 31) :
    (op.apply n).natAbs < 2 ^ 32 := by
  cases op with
  | not | notZero =>
    rw [apply, Number.ofBool]
    split <;> decide
  | _ =>
    rw [apply]
    omega

theorem BinaryOp.natAbs_apply_lt (op : BinaryOp) {a b : Int} (ha : a.natAbs < 2 ^ 31)
    (hb : b.natAbs < 2 ^ 31) : (op.apply a b).natAbs < 2 ^ 32 := by
  cases op with
  | add | sub | min | max =>
    rw [apply]
    omega
  | _ =>
    rw [apply, Number.ofBool]
    split <;> decide

/-- Why the operations on stacks may fail, apart from a want of elements. -/
def StackOp.causes : StackOp → List ScriptError
  | .pick | .roll => [.numOverflow]
  | _ => []

namespace StackM

theorem popNumber_tame (hOverflow : .numOverflow ∈ e.causes) :
    Tame e (fun n : Int => n.natAbs < 2 ^ 31) popNumber := by
  refine .bind .pop fun value _ => ?_
  split
  · next n hParse => exact .pure (Number.natAbs_lt_of_parse (k := 3) hParse)
  · next cause hParse =>
    rw [Number.parse_eq_error hParse]
    exact .throw hOverflow

theorem popCount_tame {limit : Nat} {cause : ScriptError} (hOverflow : .numOverflow ∈ e.causes)
    (hCause : cause ∈ e.causes) : Tame e (fun _ => True) (popCount limit cause) := by
  refine .bind (popNumber_tame hOverflow) fun n _ => ?_
  split
  · exact .pure trivial
  · exact .throw hCause

theorem popDepth_tame (hOverflow : .numOverflow ∈ e.causes) :
    Tame e (fun _ => True) popDepth :=
  .bind (popNumber_tame hOverflow) fun n _ => .asDepth n

theorem popMany_tame (n : Nat) : Tame e (fun _ => True) (popMany n) := by
  induction n with
  | zero => exact .pure trivial
  | succ n ih => exact .bind .pop fun _ _ => .bind ih fun _ _ => .pure trivial

theorem verify_tame {cause : ScriptError} (hCause : cause ∈ e.causes) :
    Tame e (fun _ => True) (verify cause) := by
  refine .bind .pop fun value _ => ?_
  split
  · exact .pure trivial
  · exact .throw hCause

variable (hClosed : Closed e.good)
include hClosed

theorem pushNumber_tame {n : Int} (h : n.natAbs < 2 ^ 32) :
    Tame e (fun _ => True) (pushNumber n) :=
  .push (hClosed.number n h)

theorem pushBool_tame (b : Bool) : Tame e (fun _ => True) (pushBool b) := by
  have hSmall : (Number.ofBool b).natAbs < 2 ^ 32 := by cases b <;> decide
  refine .push ?_
  rw [← Number.encode_ofBool]
  exact hClosed.number _ hSmall

end StackM

open StackM

section Operations

variable (hClosed : Closed e.good)
include hClosed

/-- **All operations that rearrange the stack are tame**, but the one that looks at its
height. -/
theorem StackOp.run_tame (op : StackOp) (hDepth : op ≠ .depth)
    (hCauses : op.causes ⊆ e.causes) : Tame e (fun _ => True) op.run := by
  cases op with
  | drop2 =>
    exact .bind (.require 2) fun _ _ => .bind .pop fun _ _ => .bind .pop fun _ _ => .pure trivial
  | dup2 =>
    exact .bind (.require 2) fun _ _ => .bind (.peek 1) fun _ hFirst =>
      .bind (.peek 0) fun _ hSecond => .bind (.push hFirst) fun _ _ => .push hSecond
  | dup3 =>
    exact .bind (.require 3) fun _ _ => .bind (.peek 2) fun _ hFirst =>
      .bind (.peek 1) fun _ hSecond => .bind (.peek 0) fun _ hThird =>
      .bind (.push hFirst) fun _ _ => .bind (.push hSecond) fun _ _ => .push hThird
  | over2 =>
    exact .bind (.require 4) fun _ _ => .bind (.peek 3) fun _ hFirst =>
      .bind (.peek 2) fun _ hSecond => .bind (.push hFirst) fun _ _ => .push hSecond
  | rot2 =>
    exact .bind (.require 6) fun _ _ => .bind (.remove 5) fun _ hFirst =>
      .bind (.remove 4) fun _ hSecond => .bind (.push hFirst) fun _ _ => .push hSecond
  | swap2 =>
    exact .bind (.require 4) fun _ _ => .bind (.exchange 3 1) fun _ _ => .exchange 2 0
  | ifDup =>
    refine .bind (.peek 0) fun value hValue => ?_
    split
    · exact .push hValue
    · exact .pure trivial
  | depth => exact absurd rfl hDepth
  | drop => exact .bind .pop fun _ _ => .pure trivial
  | dup => exact .bind (.peek 0) fun _ hValue => .push hValue
  | nip => exact .bind (.require 2) fun _ _ => .bind (.remove 1) fun _ _ => .pure trivial
  | «over» =>
    exact .bind (.require 2) fun _ _ => .bind (.peek 1) fun _ hValue => .push hValue
  | pick =>
    exact .bind (.require 2) fun _ _ => .bind (popDepth_tame (hCauses (.head _))) fun depth _ =>
      .bind (.peek depth) fun _ hValue => .push hValue
  | roll =>
    exact .bind (.require 2) fun _ _ => .bind (popDepth_tame (hCauses (.head _))) fun depth _ =>
      .bind (.remove depth) fun _ hValue => .push hValue
  | rot =>
    exact .bind (.require 3) fun _ _ => .bind (.exchange 2 1) fun _ _ => .exchange 1 0
  | swap => exact .bind (.require 2) fun _ _ => .exchange 1 0
  | tuck =>
    exact .bind (.require 2) fun _ _ => .bind (.peek 0) fun _ hValue => .insert 2 hValue
  | size => exact .bind (.peek 0) fun value hValue => .push (hClosed.size value hValue)

theorem UnaryOp.run_tame (op : UnaryOp) (hOverflow : .numOverflow ∈ e.causes) :
    Tame e (fun _ => True) op.run :=
  .bind (popNumber_tame hOverflow) fun _ hn => pushNumber_tame hClosed (op.natAbs_apply_lt hn)

theorem BinaryOp.run_tame (op : BinaryOp) (hOverflow : .numOverflow ∈ e.causes) :
    Tame e (fun _ => True) op.run :=
  .bind (.require 2) fun _ _ => .bind (popNumber_tame hOverflow) fun _ hb =>
    .bind (popNumber_tame hOverflow) fun _ ha =>
    pushNumber_tame hClosed (op.natAbs_apply_lt ha hb)

theorem within_tame (hOverflow : .numOverflow ∈ e.causes) : Tame e (fun _ => True) within :=
  .bind (.require 3) fun _ _ => .bind (popNumber_tame hOverflow) fun _ _ =>
    .bind (popNumber_tame hOverflow) fun _ _ => .bind (popNumber_tame hOverflow) fun _ _ =>
    pushBool_tame hClosed _

theorem Digest.run_tame (d : Digest) : Tame e (fun _ => True) d.run :=
  .bind .pop fun message _ => .push (hClosed.digest d message)

theorem testEqual_tame : Tame e (fun _ => True) testEqual :=
  .bind (.require 2) fun _ _ => .bind .pop fun _ _ => .bind .pop fun _ _ =>
    pushBool_tame hClosed _

end Operations

end LegacyScript
