import LegacyScript.Error
import LegacyScript.Number

/-!
# Stacks of byte strings

A stack is a list of byte strings with the top in front. The depth of an element
is counted from the top, which has depth zero.

An operation on a stack, `StackM`, either answers or fails, and leaves a stack
behind in both cases. The basic operations fail just when the depth they ask for
is not populated, and leave the stack as it was then. Operations made of several
of them may fail half way, and leave what was done so far.

The lemmas say what each basic operation does, so that an operation made of them
is evaluated by `bind_of_ok` and `bind_of_error`, one line after the other.
-/

namespace LegacyScript

/-- A stack of byte strings, the top in front. -/
abbrev Stack := List Bytes

namespace Stack

/-- The stack of elements that are given from the bottom up. -/
def ofItems (items : List Bytes) : Stack := items.reverse

/-- The elements from the bottom up. -/
def items (s : Stack) : List Bytes := s.reverse

/-- Whether there is a top, and it reads as true. -/
def isTrue : Stack → Bool
  | [] => false
  | top :: _ => Number.truthy top

end Stack

/-- An operation on a stack: it answers or fails, and leaves a stack behind. -/
abbrev StackM := EStateM ScriptError Stack

/-! ## Lines of an operation -/

/-- After a line that answers, the next line goes on from what it left. -/
theorem bind_of_ok {State α β : Type} {line : EStateM ScriptError State α}
    {next : α → EStateM ScriptError State β} {s t : State} {a : α} (h : line s = .ok a t) :
    (line >>= next) s = next a t := by
  simp only [bind, EStateM.bind, h]

/-- A line that fails is the last one. -/
theorem bind_of_error {State α β : Type} {line : EStateM ScriptError State α}
    {next : α → EStateM ScriptError State β} {s t : State} {cause : ScriptError}
    (h : line s = .error cause t) : (line >>= next) s = .error cause t := by
  simp only [bind, EStateM.bind, h]

/-! ## Basic operations -/

namespace StackM

/-- Fails for want of elements. -/
def underflow {α : Type} : StackM α :=
  throw .invalidStackOperation

/-- The top of the stack, if there is one. -/
def last? : StackM (Option Bytes) := fun s => .ok s.head? s

/-- Puts an element on top. -/
def push (value : Bytes) : StackM Unit := fun s => .ok () (value :: s)

/-- Puts a boolean on top: one byte for true, the empty string for false. -/
def pushBool (value : Bool) : StackM Unit := push (if value then [1] else [])

/-- Puts a number on top. -/
def pushNumber (value : Int) : StackM Unit := push (Number.encode value)

/-- Takes the top. -/
def pop : StackM Bytes
  | [] => underflow []
  | value :: s => .ok value s

/-- Demands that there be at least `depth` elements. -/
def require (depth : Nat) : StackM Unit := fun s =>
  if s.length < depth then underflow s else .ok () s

/-- The element at a depth. -/
def peek (depth : Nat) : StackM Bytes := fun s =>
  match s[depth]? with
  | some value => .ok value s
  | none => underflow s

/-- Takes the element at a depth. -/
def remove (depth : Nat) : StackM Bytes := fun s =>
  match s[depth]? with
  | some value => .ok value (s.eraseIdx depth)
  | none => underflow s

/-- Puts an element where it then has the given depth. -/
def insert (depth : Nat) (value : Bytes) : StackM Unit := fun s =>
  if depth ≤ s.length then .ok () (s.insertIdx depth value) else underflow s

/-- Exchanges the elements at two depths. -/
def exchange (a b : Nat) : StackM Unit := fun s =>
  match s[a]?, s[b]? with
  | some x, some y => .ok () ((s.set a y).set b x)
  | _, _ => underflow s

/-! ### What they do -/

theorem underflow_eq {α : Type} (s : Stack) :
    (underflow : StackM α) s = .error .invalidStackOperation s := rfl

theorem push_eq (value : Bytes) (s : Stack) : push value s = .ok () (value :: s) := rfl

theorem pop_nil : pop [] = .error .invalidStackOperation [] := rfl

theorem pop_cons (value : Bytes) (s : Stack) : pop (value :: s) = .ok value s := rfl

theorem require_of_le {depth : Nat} {s : Stack} (h : depth ≤ s.length) :
    require depth s = .ok () s := by
  simp [require, Nat.not_lt.2 h]

theorem require_of_lt {depth : Nat} {s : Stack} (h : s.length < depth) :
    require depth s = .error .invalidStackOperation s := by
  simp [require, h, underflow_eq]

theorem peek_of_lt {depth : Nat} {s : Stack} (h : depth < s.length) :
    peek depth s = .ok s[depth] s := by
  simp [peek, h]

theorem peek_of_le {depth : Nat} {s : Stack} (h : s.length ≤ depth) :
    peek depth s = .error .invalidStackOperation s := by
  simp [peek, h, underflow_eq]

theorem remove_of_lt {depth : Nat} {s : Stack} (h : depth < s.length) :
    remove depth s = .ok s[depth] (s.eraseIdx depth) := by
  simp [remove, h]

theorem remove_of_le {depth : Nat} {s : Stack} (h : s.length ≤ depth) :
    remove depth s = .error .invalidStackOperation s := by
  simp [remove, h, underflow_eq]

theorem insert_of_le {depth : Nat} {s : Stack} (value : Bytes) (h : depth ≤ s.length) :
    insert depth value s = .ok () (s.insertIdx depth value) := by
  simp [insert, h]

theorem insert_of_lt {depth : Nat} {s : Stack} (value : Bytes) (h : s.length < depth) :
    insert depth value s = .error .invalidStackOperation s := by
  simp [insert, Nat.not_le.2 h, underflow_eq]

theorem exchange_of_lt {a b : Nat} {s : Stack} (ha : a < s.length) (hb : b < s.length) :
    exchange a b s = .ok () ((s.set a s[b]).set b s[a]) := by
  simp [exchange, ha, hb]

/-! ## Operations made of them -/

/-- Takes the top as an operand of arithmetic. -/
def popNumber : StackM Int := do
  let value ← pop
  match Number.parse value Number.maxSize with
  | .ok n => pure n
  | .error cause => throw cause

/-- Takes the top as a number from zero to `limit`; any other number fails with
`cause`. -/
def popCount (limit : Nat) (cause : ScriptError) : StackM Nat := do
  let n ← popNumber
  if 0 ≤ n ∧ n ≤ limit then pure n.toNat else throw cause

/-- Takes the top as the depth of one of the elements below it. -/
def popDepth : StackM Nat := do
  let n ← popNumber
  let s ← get
  if 0 ≤ n ∧ n < s.length then pure n.toNat else underflow

/-- Takes the topmost `n` elements, the top first. -/
def popMany : Nat → StackM (List Bytes)
  | 0 => pure []
  | n + 1 => do
    let value ← pop
    let values ← popMany n
    pure (value :: values)

/-- Takes the top and demands that it be true. -/
def verify (cause : ScriptError) : StackM Unit := do
  let value ← pop
  if Number.truthy value then pure () else throw cause

end StackM

end LegacyScript
