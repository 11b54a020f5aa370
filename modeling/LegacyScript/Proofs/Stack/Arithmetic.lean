import LegacyScript.Proofs.Number.Codec
import LegacyScript.Proofs.Stack.Actions
import Mathlib.Data.List.Basic

/-!
# Arithmetic

The opcodes of arithmetic take one, two or three numbers from the main stack and put one in
their place. They compute in the integers: an operand is a byte string of four bytes at most,
whatever its form, and what comes of such operands is written in five bytes at most, as short
as can be. A result of five bytes is no operand any more.

`Arithmetic.opcodes` says which function of its operands each opcode computes, and
`Arithmetic.run` is the one action that all these opcodes come down to
(`Arithmetic.execute_eq`). It takes its operands from the top down, so that the topmost one
that is too long is the last that is taken.

## Results

* `popNumbers_append`, `popNumbers_of_lt` — operands are taken, or the first that is none.
* `Arithmetic.execute_eq` — the opcodes of arithmetic are one action.
* `arithmetic_exact`      — what they compute, and what is left where they fail.
-/

namespace LegacyScript

open StackM MachineM

-- ---------------------------------------------------------------------------
-- Taking numbers
-- ---------------------------------------------------------------------------

namespace StackM

/-- Takes so many operands from the top down, and answers their numbers, the deepest first. -/
def popNumbers : Nat → StackM (List Int)
  | 0 => pure []
  | n + 1 => do
    let top ← popNumber
    let deeper ← popNumbers n
    pure (deeper ++ [top])

variable {n : Nat} {operand : Bytes} {operands front : List Bytes}

/-- Operands that are short enough are all taken. -/
theorem popNumbers_append (hShort : ∀ operand ∈ operands, operand.length ≤ 4) (below : Stack) :
    popNumbers operands.length (operands ++ below) =
      .ok (operands.reverse.map Number.decode) below := by
  induction operands with
  | nil => rfl
  | cons top operands ih =>
    have hTop : top.length ≤ 4 := hShort top (List.mem_cons_self ..)
    have hDeeper := ih fun other hOther => hShort other (List.mem_cons_of_mem _ hOther)
    rw [List.length_cons, List.cons_append, popNumbers, bind_of_ok (popNumber_of_le hTop),
      bind_of_ok hDeeper, List.reverse_cons, List.map_append]
    rfl

/-- The topmost operand that is too long is taken, and nothing below it. -/
theorem popNumbers_of_lt (hShort : ∀ other ∈ front, other.length ≤ 4)
    (hLong : 4 < operand.length) (hFront : front.length < n) (rest : Stack) :
    popNumbers n (front ++ operand :: rest) = .error .numOverflow rest := by
  induction front generalizing n with
  | nil =>
    obtain ⟨n, rfl⟩ := Nat.exists_eq_add_of_lt hFront
    exact bind_of_error (popNumber_of_lt hLong)
  | cons top front ih =>
    obtain ⟨n, rfl⟩ := Nat.exists_eq_add_of_lt hFront
    have hTop : top.length ≤ 4 := hShort top (List.mem_cons_self ..)
    have hDeeper := ih (n := (top :: front).length + n)
      (fun other hOther => hShort other (List.mem_cons_of_mem _ hOther))
      (by rw [List.length_cons]; omega)
    rw [popNumbers, List.cons_append, bind_of_ok (popNumber_of_le hTop), bind_of_error hDeeper]

end StackM

/-- Where an operand is too long, there is a topmost one. -/
theorem exists_topmost_of_lt {n : Nat} {s : Stack} (h : ∃ operand ∈ s.take n, 4 < operand.length) :
    ∃ front operand rest, s = front ++ operand :: rest ∧ front.length < n ∧
      (∀ other ∈ front, other.length ≤ 4) ∧ 4 < operand.length := by
  obtain ⟨operand, hMem, hLong⟩ := h
  have hFound : ((s.take n).find? fun other => decide (4 < other.length)).isSome = true := by
    rw [List.find?_isSome]
    exact ⟨operand, hMem, decide_eq_true hLong⟩
  obtain ⟨topmost, hTopmost⟩ := Option.isSome_iff_exists.1 hFound
  obtain ⟨hLonger, front, rest, hTake, hShort⟩ := List.find?_eq_some_iff_append.1 hTopmost
  have hLength := congrArg List.length hTake
  rw [List.length_take, List.length_append, List.length_cons] at hLength
  refine ⟨front, topmost, rest ++ s.drop n, ?_, by omega, ?_, of_decide_eq_true hLonger⟩
  · rw [← List.cons_append, ← List.append_assoc, ← hTake, List.take_append_drop]
  · intro other hOther
    simpa using hShort other hOther

-- ---------------------------------------------------------------------------
-- Functions of operands
-- ---------------------------------------------------------------------------

/-- A function of one, two or three numbers. -/
inductive Arithmetic
  | unary (f : Int → Int)
  | binary (f : Int → Int → Int)
  | ternary (f : Int → Int → Int → Int)

namespace Arithmetic

/-- The number of operands. -/
def arity : Arithmetic → Nat
  | .unary _ => 1
  | .binary _ => 2
  | .ternary _ => 3

/-- The value at a list of operands, the deepest first. It counts only for lists of the
right length. -/
def apply : Arithmetic → List Int → Int
  | .unary f, [a] => f a
  | .binary f, [a, b] => f a b
  | .ternary f, [a, b, c] => f a b c
  | _, _ => 0

/-- The opcodes of arithmetic, with what they compute. A truth value is one or zero. -/
def opcodes : List (Opcode × Arithmetic) := [
  -- OP_1ADD, OP_1SUB, OP_NEGATE, OP_ABS, OP_NOT, OP_0NOTEQUAL
  (0x8b, .unary fun a => a + 1),
  (0x8c, .unary fun a => a - 1),
  (0x8f, .unary fun a => -a),
  (0x90, .unary fun a => |a|),
  (0x91, .unary fun a => if a = 0 then 1 else 0),
  (0x92, .unary fun a => if a ≠ 0 then 1 else 0),
  -- OP_ADD, OP_SUB, OP_BOOLAND, OP_BOOLOR
  (0x93, .binary fun a b => a + b),
  (0x94, .binary fun a b => a - b),
  (0x9a, .binary fun a b => if a ≠ 0 ∧ b ≠ 0 then 1 else 0),
  (0x9b, .binary fun a b => if a ≠ 0 ∨ b ≠ 0 then 1 else 0),
  -- OP_NUMEQUAL, OP_NUMNOTEQUAL, OP_LESSTHAN, OP_GREATERTHAN, OP_LESSTHANOREQUAL,
  -- OP_GREATERTHANOREQUAL
  (0x9c, .binary fun a b => if a = b then 1 else 0),
  (0x9e, .binary fun a b => if a ≠ b then 1 else 0),
  (0x9f, .binary fun a b => if a < b then 1 else 0),
  (0xa0, .binary fun a b => if a > b then 1 else 0),
  (0xa1, .binary fun a b => if a ≤ b then 1 else 0),
  (0xa2, .binary fun a b => if a ≥ b then 1 else 0),
  -- OP_MIN, OP_MAX, OP_WITHIN
  (0xa3, .binary fun a b => min a b),
  (0xa4, .binary fun a b => max a b),
  (0xa5, .ternary fun a lower upper => if lower ≤ a ∧ a < upper then 1 else 0)]

/-- Replaces the operands of a function by its value. -/
def run (f : Arithmetic) : StackM Unit := do
  require f.arity
  let operands ← popNumbers f.arity
  pushNumber (f.apply operands)

section Run

variable {f : Arithmetic} {s front rest : Stack} {operand : Bytes}

theorem run_of_short (hEnough : f.arity ≤ s.length)
    (hShort : ∀ operand ∈ s.take f.arity, operand.length ≤ 4) :
    f.run s = .ok () (Number.encode (f.apply ((s.take f.arity).reverse.map Number.decode)) ::
      s.drop f.arity) := by
  have hNumbers := popNumbers_append hShort (s.drop f.arity)
  rw [List.length_take_of_le hEnough, List.take_append_drop] at hNumbers
  unfold run
  rw [bind_of_ok (require_of_le hEnough), bind_of_ok hNumbers]
  rfl

theorem run_of_long (hStack : s = front ++ operand :: rest) (hEnough : f.arity ≤ s.length)
    (hShort : ∀ other ∈ front, other.length ≤ 4) (hLong : 4 < operand.length)
    (hFront : front.length < f.arity) : f.run s = .error .numOverflow rest := by
  subst hStack
  have hNumbers := popNumbers_of_lt hShort hLong hFront rest
  unfold run
  rw [bind_of_ok (require_of_le hEnough), bind_of_error hNumbers]

end Run

end Arithmetic

-- ---------------------------------------------------------------------------
-- The opcodes
-- ---------------------------------------------------------------------------

/-- An operation computes a function of its operands. -/
inductive Operation.Computes : Operation → Arithmetic → Prop
  | unary (op : UnaryOp) {f : Int → Int} (h : ∀ a, op.apply a = f a) :
      Computes (.unary op) (.unary f)
  | binary (op : BinaryOp) {f : Int → Int → Int} (h : ∀ a b, op.apply a b = f a b) :
      Computes (.binary op) (.binary f)
  | numEqual {f : Int → Int → Int} (h : ∀ a b, BinaryOp.numEqual.apply a b = f a b) :
      Computes (.test .numEqual) (.binary f)
  | within {f : Int → Int → Int → Int}
      (h : ∀ a lower upper, Number.ofBool (lower ≤ a && a < upper) = f a lower upper) :
      Computes .within (.ternary f)

theorem Number.ofBool_decide (p : Prop) [Decidable p] :
    Number.ofBool (decide p) = if p then 1 else 0 := by
  by_cases h : p <;> simp [Number.ofBool, h]

/-- Every opcode of arithmetic stands for an operation that computes its function. -/
theorem Arithmetic.exists_operation {code : Opcode} {f : Arithmetic} (h : (code, f) ∈ opcodes) :
    ∃ operation, code.operation? = some operation ∧ operation.Computes f := by
  have hTruth := Number.ofBool_decide
  simp only [opcodes, List.mem_cons, Prod.mk.injEq, List.not_mem_nil, or_false] at h
  rcases h with ⟨rfl, rfl⟩ | ⟨rfl, rfl⟩ | ⟨rfl, rfl⟩ | ⟨rfl, rfl⟩ | ⟨rfl, rfl⟩ | ⟨rfl, rfl⟩ |
    ⟨rfl, rfl⟩ | ⟨rfl, rfl⟩ | ⟨rfl, rfl⟩ | ⟨rfl, rfl⟩ | ⟨rfl, rfl⟩ | ⟨rfl, rfl⟩ | ⟨rfl, rfl⟩ |
    ⟨rfl, rfl⟩ | ⟨rfl, rfl⟩ | ⟨rfl, rfl⟩ | ⟨rfl, rfl⟩ | ⟨rfl, rfl⟩ | ⟨rfl, rfl⟩
  · exact ⟨_, rfl, .unary .add1 fun _ => rfl⟩
  · exact ⟨_, rfl, .unary .sub1 fun _ => rfl⟩
  · exact ⟨_, rfl, .unary .negate fun _ => rfl⟩
  · exact ⟨_, rfl, .unary .abs fun a => (Int.abs_eq_natAbs a).symm⟩
  · exact ⟨_, rfl, .unary .not fun a => hTruth (a = 0)⟩
  · exact ⟨_, rfl, .unary .notZero fun a => hTruth (a ≠ 0)⟩
  · exact ⟨_, rfl, .binary .add fun _ _ => rfl⟩
  · exact ⟨_, rfl, .binary .sub fun _ _ => rfl⟩
  · exact ⟨_, rfl, .binary .boolAnd fun a b => by
      rw [BinaryOp.apply, ← Bool.decide_and, hTruth]⟩
  · exact ⟨_, rfl, .binary .boolOr fun a b => by
      rw [BinaryOp.apply, ← Bool.decide_or, hTruth]⟩
  · exact ⟨_, rfl, .numEqual fun a b => hTruth (a = b)⟩
  · exact ⟨_, rfl, .binary .numNotEqual fun a b => hTruth (a ≠ b)⟩
  · exact ⟨_, rfl, .binary .lessThan fun a b => hTruth (a < b)⟩
  · exact ⟨_, rfl, .binary .greaterThan fun a b => hTruth (a > b)⟩
  · exact ⟨_, rfl, .binary .lessThanOrEqual fun a b => hTruth (a ≤ b)⟩
  · exact ⟨_, rfl, .binary .greaterThanOrEqual fun a b => hTruth (a ≥ b)⟩
  · exact ⟨_, rfl, .binary .min fun _ _ => rfl⟩
  · exact ⟨_, rfl, .binary .max fun _ _ => rfl⟩
  · exact ⟨_, rfl, .within fun a lower upper => by rw [← Bool.decide_and, hTruth]⟩

/-- A single operand is not demanded before it is taken. An empty stack fails just so. -/
theorem UnaryOp.run_eq (op : UnaryOp) : op.run = (Arithmetic.unary op.apply).run := by
  funext s
  cases s with
  | nil => rfl
  | cons top s =>
    have hEnough : 1 ≤ (top :: s).length := Nat.succ_le_succ (Nat.zero_le _)
    unfold run Arithmetic.run
    rw [Arithmetic.arity, bind_of_ok (require_of_le hEnough)]
    simp only [popNumbers, pure_bind, bind_assoc]
    rfl

theorem BinaryOp.run_eq (op : BinaryOp) : op.run = (Arithmetic.binary op.apply).run := by
  unfold run Arithmetic.run
  simp only [Arithmetic.arity, popNumbers, pure_bind, bind_assoc]
  rfl

theorem within_eq : within = (Arithmetic.ternary fun a lower upper =>
    Number.ofBool (lower ≤ a && a < upper)).run := by
  unfold within Arithmetic.run
  simp only [Arithmetic.arity, popNumbers, pure_bind, bind_assoc, pushBool, ← Number.encode_ofBool]
  rfl

variable {rules : Rules} {script : Script}

theorem Operation.Computes.execute_eq {operation : Operation} {f : Arithmetic}
    (h : operation.Computes f) : operation.execute rules script = onStack f.run := by
  cases h with
  | unary op h =>
    rw [← funext h]
    exact congrArg onStack op.run_eq
  | binary op h =>
    rw [← funext₂ h]
    exact congrArg onStack op.run_eq
  | numEqual h =>
    rw [← funext₂ h]
    exact congrArg onStack BinaryOp.numEqual.run_eq
  | within h =>
    rw [← funext₃ h]
    exact congrArg onStack within_eq

namespace Arithmetic

/-- **The opcodes of arithmetic are one action**, but for the function that they compute. -/
theorem execute_eq {code : Opcode} {f : Arithmetic} (h : (code, f) ∈ opcodes) :
    code.execute rules script = onStack f.run := by
  obtain ⟨operation, hOperation, hComputes⟩ := exists_operation h
  rw [Opcode.execute_of_operation hOperation, hComputes.execute_eq]

-- ---------------------------------------------------------------------------
-- Results
-- ---------------------------------------------------------------------------

/-- What comes of operands has one bit more than they have. -/
theorem natAbs_apply_lt {code : Opcode} {f : Arithmetic} (h : (code, f) ∈ opcodes)
    {numbers : List Int} (hLength : numbers.length = f.arity)
    (hNumbers : ∀ n ∈ numbers, n.natAbs < 2 ^ 31) : (f.apply numbers).natAbs < 2 ^ 32 := by
  obtain ⟨operation, -, hComputes⟩ := exists_operation h
  cases hComputes with
  | unary op hApply =>
    obtain ⟨a, rfl⟩ := List.length_eq_one_iff.1 hLength
    rw [apply, ← hApply]
    exact op.natAbs_apply_lt (hNumbers a (by simp))
  | binary op hApply =>
    obtain ⟨a, b, rfl⟩ := List.length_eq_two.1 hLength
    rw [apply, ← hApply]
    exact op.natAbs_apply_lt (hNumbers a (by simp)) (hNumbers b (by simp))
  | numEqual hApply =>
    obtain ⟨a, b, rfl⟩ := List.length_eq_two.1 hLength
    rw [apply, ← hApply]
    exact BinaryOp.numEqual.natAbs_apply_lt (hNumbers a (by simp)) (hNumbers b (by simp))
  | within hApply =>
    obtain ⟨a, lower, upper, rfl⟩ := List.length_eq_three.1 hLength
    rw [apply, ← hApply, Number.ofBool]
    split <;> decide

/-- Five bytes hold what comes of operands. -/
theorem length_encode_apply_le {code : Opcode} {f : Arithmetic} (h : (code, f) ∈ opcodes)
    {operands : List Bytes} (hLength : operands.length = f.arity)
    (hShort : ∀ operand ∈ operands, operand.length ≤ 4) :
    (Number.encode (f.apply (operands.reverse.map Number.decode))).length ≤ 5 := by
  have hCount : (operands.reverse.map Number.decode).length = f.arity := by
    rw [List.length_map, List.length_reverse, hLength]
  have hNumbers : ∀ n ∈ operands.reverse.map Number.decode, n.natAbs < 2 ^ 31 := by
    intro n hn
    obtain ⟨operand, hOperand, rfl⟩ := List.mem_map.1 hn
    exact Number.natAbs_decode_lt (k := 3) (hShort operand (List.mem_reverse.1 hOperand))
  have hBits := natAbs_apply_lt h hCount hNumbers
  rw [Number.length_encode_le_iff _ 4]
  omega

end Arithmetic

/-- A number that is written is an operand again if it is small enough. -/
theorem Number.parse_encode_eq_ok_iff (value n : Int) :
    parse (encode value) maxSize = .ok n ↔ n = value ∧ |value| ≤ 2 ^ 31 - 1 := by
  rw [parse_eq_ok_iff, decode_encode, maxSize, length_encode_le_iff_abs value (by decide),
    eq_comm (a := value), and_comm]

/-- **Arithmetic is exact.** On a stack with enough operands for its function, an opcode of
arithmetic looks at them alone. If none has more than four bytes, it puts the value of its
function in their place, at the numbers that they stand for, the deepest one first. The
value is written in five bytes at most, and can be an operand again just when its magnitude
is at most `2 ^ 31 - 1`. If some operand has more than four bytes, the opcode fails, and
has taken all operands from the top down to the topmost such one. All else on the machine
is left as it was. -/
theorem arithmetic_exact (rules : Rules) (script : Script) (m : Machine) {code : Opcode}
    {f : Arithmetic} (hCode : (code, f) ∈ Arithmetic.opcodes)
    (hEnough : f.arity ≤ m.stack.length) :
    let operands := m.stack.take f.arity
    let value := f.apply (operands.reverse.map Number.decode)
    ((∀ operand ∈ operands, operand.length ≤ 4) →
      code.execute rules script m =
        .ok () { m with stack := Number.encode value :: m.stack.drop f.arity } ∧
      (Number.encode value).length ≤ 5 ∧
      ∀ n, Number.parse (Number.encode value) Number.maxSize = .ok n ↔
        n = value ∧ |value| ≤ 2 ^ 31 - 1) ∧
    ((∃ operand ∈ operands, 4 < operand.length) →
      ∃ front operand rest, m.stack = front ++ operand :: rest ∧ front.length < f.arity ∧
        (∀ other ∈ front, other.length ≤ 4) ∧ 4 < operand.length ∧
        code.execute rules script m = .error .numOverflow { m with stack := rest }) := by
  intro operands value
  rw [Arithmetic.execute_eq hCode]
  constructor
  · intro hShort
    refine ⟨onStack_of_ok (Arithmetic.run_of_short hEnough hShort), ?_,
      Number.parse_encode_eq_ok_iff value⟩
    exact Arithmetic.length_encode_apply_le hCode (List.length_take_of_le hEnough) hShort
  · intro hLong
    obtain ⟨front, operand, rest, hStack, hFront, hShort, hTopmost⟩ := exists_topmost_of_lt hLong
    refine ⟨front, operand, rest, hStack, hFront, hShort, hTopmost, ?_⟩
    exact onStack_of_error (Arithmetic.run_of_long hStack hEnough hShort hTopmost hFront)

/-- The difference of the largest operand and the smallest is no operand, and of three
operands the one in the middle may be too long. -/
theorem arithmetic_exact_edges :
    let rules : Rules := ⟨{ checkSig := fun _ _ _ => true }, Flags.none⟩
    let largest : Bytes := [0xff, 0xff, 0xff, 0x7f]
    let smallest : Bytes := [0xff, 0xff, 0xff, 0xff]
    let difference : Bytes := [0xfe, 0xff, 0xff, 0xff, 0x00]
    let long : Bytes := [0x03, 0x00, 0x00, 0x00, 0x80]
    (Opcode.execute rules [] 0x94 (Machine.ofStack [smallest, largest, [0x07]]) =
      .ok () (Machine.ofStack [difference, [0x07]])) ∧
    (∀ n, Number.parse difference Number.maxSize ≠ .ok n) ∧
    Opcode.execute rules [] 0xa5 (Machine.ofStack [[0x05], long, [0x04], [0x07]]) =
      .error .numOverflow (Machine.ofStack [[0x04], [0x07]]) := by
  intro rules largest smallest difference long
  have hSub : (0x94, Arithmetic.binary fun a b => a - b) ∈ Arithmetic.opcodes := by
    simp [Arithmetic.opcodes]
  have hWithin : (0xa5, Arithmetic.ternary fun a lower upper =>
      if lower ≤ a ∧ a < upper then 1 else 0) ∈ Arithmetic.opcodes := by
    simp [Arithmetic.opcodes]
  have hLargest : Number.decode largest = 2147483647 := by decide +kernel
  have hSmallest : Number.decode smallest = -2147483647 := by decide +kernel
  have hDifference : Number.encode 4294967294 = difference := by decide +kernel
  obtain ⟨hRun, -, hOperand⟩ := (arithmetic_exact rules []
    (Machine.ofStack [smallest, largest, [0x07]]) hSub (by decide)).1 (by decide)
  have hValue : (Arithmetic.binary fun a b => a - b).apply
      ([smallest, largest].reverse.map Number.decode) = 4294967294 := by
    show Number.decode largest - Number.decode smallest = _
    rw [hLargest, hSmallest]
    rfl
  refine ⟨?_, ?_, ?_⟩
  · rw [hRun, ← hDifference, ← hValue]
    rfl
  · intro n hn
    rw [← hDifference, ← hValue] at hn
    obtain ⟨-, hSmall⟩ := (hOperand n).1 hn
    exact absurd (hValue ▸ hSmall) (by decide)
  · obtain ⟨front, operand, rest, hStack, -, hShort, hTopmost, hRun⟩ :=
      (arithmetic_exact rules [] (Machine.ofStack [[0x05], long, [0x04], [0x07]])
        hWithin (by decide)).2 (by decide)
    -- no operand but the one in the middle is too long
    match front, hStack, hShort with
    | [], hStack, _ =>
      cases hStack
      exact absurd hTopmost (by decide)
    | [_], hStack, _ =>
      cases hStack
      exact hRun
    | _ :: middle :: _, hStack, hShort =>
      have hMiddle : long = middle := (List.cons.inj (List.cons.inj hStack).2).1
      have hLength : middle.length ≤ 4 := hShort middle (by simp)
      rw [← hMiddle] at hLength
      exact absurd hLength (by decide)

end LegacyScript
