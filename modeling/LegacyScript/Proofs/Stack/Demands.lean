import LegacyScript.Proofs.Stack.Actions

/-!
# Demands on the height of a stack

An operation that takes several elements first demands that they be there. Where its later
lines ask for no more than that, it cannot fail half way for want of elements: whoever finds
it failed for that reason finds the stack as it was.

Two judgements say so, of an action on any state that has a stack in view. `Enough n k` is for
the lines behind a demand: from `n` elements on they do not fail for an early cause, and `k`
elements are left. `Guarded k` is for whole operations: where they fail for an early cause,
nothing was taken yet. A guarded line may be followed by others for which enough is left.

The causes that are early (`ScriptError.early`) are those that an operation finds before it
takes anything. An operand that is not a number, or one that is false, is found only when it
has been taken, and so these are not among them.

## Results

* `Enough.bind`, `Guarded.bind` — from line to line.
* `StackOp.run_guarded`         — the operations that rearrange the stack, but for the two
  that take the depth to which they reach from the stack itself.
* `UnaryOp.run_guarded`, `BinaryOp.run_guarded`, ... — the others.
-/

namespace LegacyScript

/-- The causes that are found before anything is taken from the stack. -/
def ScriptError.early : List ScriptError :=
  [.pushSize, .malformedPush, .unknownOpcode, .disabledOpcode, .badOpcode, .opReturn,
    .unbalancedConditional, .invalidAltStackOperation, .invalidStackOperation]

open ScriptError (early)

-- ---------------------------------------------------------------------------
-- Judgements
-- ---------------------------------------------------------------------------

section Judgements

variable {State α β : Type}

/-- From a stack of `n` elements or more, the action does not fail for an early cause, and
leaves `k` or more. -/
def Enough (view : State → Stack) (n k : Nat) (x : EStateM ScriptError State α) : Prop :=
  ∀ s, n ≤ (view s).length →
    match x s with
    | .ok _ t => k ≤ (view t).length
    | .error cause _ => cause ∉ early

/-- Where the action fails for an early cause, it leaves the stack as it was. Otherwise it
leaves `k` elements or more. -/
def Guarded (view : State → Stack) (k : Nat) (x : EStateM ScriptError State α) : Prop :=
  ∀ s,
    match x s with
    | .ok _ t => k ≤ (view t).length
    | .error cause t => cause ∈ early → view t = view s

variable {view : State → Stack} {j k n : Nat} {x : EStateM ScriptError State α}
  {f : α → EStateM ScriptError State β}

theorem Enough.bind (hx : Enough view n j x) (hf : ∀ a, Enough view j k (f a)) :
    Enough view n k (x >>= f) := by
  intro s hHeight
  have hFirst := hx s hHeight
  cases h : x s with
  | ok a t =>
    rw [h] at hFirst
    rw [bind_of_ok h]
    exact hf a t hFirst
  | error cause t =>
    rw [h] at hFirst
    rw [bind_of_error h]
    exact hFirst

theorem Enough.mono (hx : Enough view n k x) (hLe : j ≤ k) : Enough view n j x := by
  intro s hHeight
  have hEnd := hx s hHeight
  cases h : x s with
  | ok a t =>
    rw [h] at hEnd
    exact Nat.le_trans hLe hEnd
  | error cause t =>
    rw [h] at hEnd
    exact hEnd

/-- What a guarded line leaves has to be enough for the lines behind it. -/
theorem Guarded.bind (hx : Guarded view j x) (hf : ∀ a, Enough view j k (f a)) :
    Guarded view k (x >>= f) := by
  intro s
  have hFirst := hx s
  cases h : x s with
  | ok a t =>
    rw [h] at hFirst
    have hRest := hf a t hFirst
    rw [bind_of_ok h]
    cases hEnd : f a t with
    | ok b u =>
      rw [hEnd] at hRest
      exact hRest
    | error cause u =>
      rw [hEnd] at hRest
      exact fun hEarly => absurd hEarly hRest
  | error cause t =>
    rw [h] at hFirst
    rw [bind_of_error h]
    exact hFirst

/-- A line that never touches the stack may stand in front of a guarded one. -/
theorem Guarded.after (hx : ∀ s, view (leaves x s) = view s) (hf : ∀ a, Guarded view k (f a)) :
    Guarded view k (x >>= f) := by
  intro s
  have hFirst := hx s
  cases h : x s with
  | ok a t =>
    rw [leaves_of_ok h] at hFirst
    have hRest := hf a t
    rw [hFirst] at hRest
    rw [bind_of_ok h]
    exact hRest
  | error cause t =>
    rw [leaves_of_error h] at hFirst
    rw [bind_of_error h]
    exact fun _ => hFirst

/-- How much is left need not be known. -/
theorem Guarded.zero (hx : Guarded view k x) : Guarded view 0 x := by
  intro s
  have hFirst := hx s
  cases h : x s with
  | ok a t => exact Nat.zero_le _
  | error cause t =>
    rw [h] at hFirst
    exact hFirst

theorem Guarded.view_eq {s t : State} {cause : ScriptError} (hx : Guarded view k x)
    (h : x s = .error cause t) (hEarly : cause ∈ early) : view t = view s := by
  have hFails := hx s
  rw [h] at hFails
  exact hFails hEarly

theorem pure_enough (a : α) : Enough view n n (pure a : EStateM ScriptError State α) :=
  fun _ hHeight => hHeight

theorem get_enough : Enough view n n (get : EStateM ScriptError State State) :=
  fun _ hHeight => hHeight

theorem throw_enough {cause : ScriptError} (hLate : cause ∉ early) :
    Enough view n k (throw cause : EStateM ScriptError State α) :=
  fun _ _ => hLate

theorem throw_guarded (cause : ScriptError) :
    Guarded view k (throw cause : EStateM ScriptError State α) :=
  fun _ _ => rfl

theorem ite_enough {c : Prop} [Decidable c] {y : EStateM ScriptError State α}
    (hx : Enough view n k x) (hy : Enough view n k y) : Enough view n k (if c then x else y) := by
  split
  · exact hx
  · exact hy

end Judgements

-- ---------------------------------------------------------------------------
-- Basic actions
-- ---------------------------------------------------------------------------

namespace StackM

variable {a b depth n : Nat}

theorem push_enough (value : Bytes) : Enough id n (n + 1) (push value) :=
  fun _ hHeight => Nat.succ_le_succ hHeight

theorem push_guarded (value : Bytes) : Guarded id 0 (push value) :=
  fun _ => Nat.zero_le _

theorem pushNumber_enough (value : Int) : Enough id n (n + 1) (pushNumber value) :=
  push_enough _

theorem pushBool_enough (value : Bool) : Enough id n (n + 1) (pushBool value) :=
  push_enough _

theorem pop_enough : Enough id (n + 1) n pop := by
  intro s hHeight
  cases s with
  | nil => cases hHeight
  | cons value s => exact Nat.le_of_succ_le_succ hHeight

theorem pop_guarded : Guarded id 0 pop := by
  intro s
  cases s with
  | nil => exact fun _ => rfl
  | cons value s => exact Nat.zero_le _

theorem require_guarded (n : Nat) : Guarded id n (require n) := by
  intro s
  rcases Nat.lt_or_ge s.length n with hLt | hLe
  · rw [require_of_lt hLt]
    exact fun _ => rfl
  · rw [require_of_le hLe]
    exact hLe

theorem peek_enough (h : depth < n) : Enough id n n (peek depth) := by
  intro s hHeight
  have hLt : depth < s.length := Nat.lt_of_lt_of_le h hHeight
  rw [peek_of_lt hLt]
  exact hHeight

theorem peek_guarded (depth : Nat) : Guarded id (depth + 1) (peek depth) := by
  intro s
  rcases Nat.lt_or_ge depth s.length with hLt | hLe
  · rw [peek_of_lt hLt]
    exact hLt
  · rw [peek_of_le hLe]
    exact fun _ => rfl

theorem remove_enough (h : depth ≤ n) : Enough id (n + 1) n (remove depth) := by
  intro s hHeight
  have hLt : depth < s.length := Nat.lt_of_le_of_lt h hHeight
  have hLength := List.length_eraseIdx_of_lt hLt
  rw [remove_of_lt hLt]
  show n ≤ (s.eraseIdx depth).length
  exact hLength ▸ Nat.le_sub_one_of_lt hHeight

theorem insert_enough (h : depth ≤ n) (value : Bytes) :
    Enough id n (n + 1) (insert depth value) := by
  intro s hHeight
  have hLe : depth ≤ s.length := Nat.le_trans h hHeight
  rw [insert_of_le value hLe]
  show n + 1 ≤ (s.insertIdx depth value).length
  rw [List.length_insertIdx_of_le_length hLe]
  exact Nat.succ_le_succ hHeight

theorem exchange_enough (ha : a < n) (hb : b < n) : Enough id n n (exchange a b) := by
  intro s hHeight
  have haLt : a < s.length := Nat.lt_of_lt_of_le ha hHeight
  have hbLt : b < s.length := Nat.lt_of_lt_of_le hb hHeight
  rw [exchange_of_lt haLt hbLt]
  show n ≤ ((s.set a _).set b _).length
  rw [List.length_set, List.length_set]
  exact hHeight

/-- An operand is parsed when it has been taken. -/
theorem parse_enough (value : Bytes) :
    Enough id n n (match Number.parse value Number.maxSize with
      | .ok number => (pure number : StackM Int)
      | .error cause => throw cause) := by
  split
  · exact pure_enough _
  · next cause hParse =>
    rw [Number.parse_eq_error hParse]
    exact throw_enough (by decide)

theorem popNumber_enough : Enough id (n + 1) n popNumber :=
  pop_enough.bind parse_enough

theorem popNumber_guarded : Guarded id 0 popNumber :=
  pop_guarded.bind parse_enough

/-- Whether an element is true is seen when it has been taken. -/
theorem truthy_enough {cause : ScriptError} (hLate : cause ∉ early) (value : Bytes) :
    Enough id n n (if Number.truthy value then (pure () : StackM Unit) else throw cause) :=
  ite_enough (pure_enough ()) (throw_enough hLate)

theorem verify_enough {cause : ScriptError} (hLate : cause ∉ early) :
    Enough id (n + 1) n (verify cause) :=
  pop_enough.bind (truthy_enough hLate)

theorem verify_guarded {cause : ScriptError} (hLate : cause ∉ early) :
    Guarded id 0 (verify cause) :=
  pop_guarded.bind (truthy_enough hLate)

end StackM

-- ---------------------------------------------------------------------------
-- The operations
-- ---------------------------------------------------------------------------

open StackM

/-- Whether an operation takes from the stack how far it reaches into it. -/
def StackOp.reaches : StackOp → Bool
  | .pick | .roll => true
  | _ => false

/-- **Operations that rearrange the stack demand first what they take**, where that is known
beforehand. -/
theorem StackOp.run_guarded (op : StackOp) (hReach : op.reaches = false) :
    Guarded id 0 op.run := by
  cases op with
  | drop2 =>
    exact (require_guarded 2).bind fun _ => pop_enough.bind fun _ => pop_enough.bind fun _ =>
      pure_enough ()
  | dup2 =>
    exact Guarded.zero ((require_guarded 2).bind fun _ =>
      (peek_enough (by decide)).bind fun _ => (peek_enough (by decide)).bind fun _ =>
      (push_enough _).bind fun _ => push_enough _)
  | dup3 =>
    exact Guarded.zero ((require_guarded 3).bind fun _ =>
      (peek_enough (by decide)).bind fun _ => (peek_enough (by decide)).bind fun _ =>
      (peek_enough (by decide)).bind fun _ => (push_enough _).bind fun _ =>
      (push_enough _).bind fun _ => push_enough _)
  | over2 =>
    exact Guarded.zero ((require_guarded 4).bind fun _ =>
      (peek_enough (by decide)).bind fun _ => (peek_enough (by decide)).bind fun _ =>
      (push_enough _).bind fun _ => push_enough _)
  | rot2 =>
    exact Guarded.zero ((require_guarded 6).bind fun _ =>
      (remove_enough (by decide)).bind fun _ => (remove_enough (by decide)).bind fun _ =>
      (push_enough _).bind fun _ => push_enough _)
  | swap2 =>
    exact Guarded.zero ((require_guarded 4).bind fun _ =>
      (exchange_enough (by decide) (by decide)).bind fun _ =>
      exchange_enough (by decide) (by decide))
  | ifDup =>
    exact Guarded.zero ((peek_guarded 0).bind fun value =>
      ite_enough ((push_enough value).mono (by decide)) (pure_enough ()))
  | depth => exact fun s => Nat.zero_le _
  | drop => exact pop_guarded.bind fun _ => pure_enough ()
  | dup => exact Guarded.zero ((peek_guarded 0).bind fun _ => push_enough _)
  | nip =>
    exact Guarded.zero ((require_guarded 2).bind fun _ =>
      (remove_enough (by decide)).bind fun _ => pure_enough ())
  | «over» =>
    exact Guarded.zero ((require_guarded 2).bind fun _ =>
      (peek_enough (by decide)).bind fun _ => push_enough _)
  | pick => cases hReach
  | roll => cases hReach
  | rot =>
    exact Guarded.zero ((require_guarded 3).bind fun _ =>
      (exchange_enough (by decide) (by decide)).bind fun _ =>
      exchange_enough (by decide) (by decide))
  | swap =>
    exact Guarded.zero ((require_guarded 2).bind fun _ =>
      exchange_enough (by decide) (by decide))
  | tuck =>
    exact Guarded.zero ((require_guarded 2).bind fun _ =>
      (peek_enough (by decide)).bind fun _ => insert_enough (by decide) _)
  | size => exact Guarded.zero ((peek_guarded 0).bind fun _ => pushNumber_enough _)

theorem UnaryOp.run_guarded (op : UnaryOp) : Guarded id 1 op.run :=
  popNumber_guarded.bind fun _ => pushNumber_enough _

theorem BinaryOp.run_guarded (op : BinaryOp) : Guarded id 1 op.run :=
  (require_guarded 2).bind fun _ => popNumber_enough.bind fun _ =>
    popNumber_enough.bind fun _ => pushNumber_enough _

theorem within_guarded : Guarded id 1 within :=
  (require_guarded 3).bind fun _ => popNumber_enough.bind fun _ =>
    popNumber_enough.bind fun _ => popNumber_enough.bind fun _ => pushBool_enough _

theorem Digest.run_guarded (d : Digest) : Guarded id 1 d.run :=
  pop_guarded.bind fun _ => push_enough _

theorem testEqual_guarded : Guarded id 1 testEqual :=
  (require_guarded 2).bind fun _ => pop_enough.bind fun _ => pop_enough.bind fun _ =>
    pushBool_enough _

end LegacyScript
