import LegacyScript.Hash.Digest
import LegacyScript.Machine.Basic

/-!
# Executing operations

`Operation.execute` is what one operation does to a machine in a branch that
runs. Operations that need the main stack only are operations on stacks, and so
cannot touch anything else. Operands are checked and taken from the top down,
and what was taken before a failure is gone.

Signatures are tested against the script code: the script from the last executed
code separator on, without the pushes of the signatures themselves.
-/

namespace LegacyScript

open StackM MachineM

/-! ## Operations on the main stack -/

/-- Rearranges the stack. -/
def StackOp.run : StackOp → StackM Unit
  | .drop2 => do
    require 2
    let _ ← pop
    let _ ← pop
  | .dup2 => do
    require 2
    let first ← peek 1
    let second ← peek 0
    push first
    push second
  | .dup3 => do
    require 3
    let first ← peek 2
    let second ← peek 1
    let third ← peek 0
    push first
    push second
    push third
  | .over2 => do
    require 4
    let first ← peek 3
    let second ← peek 2
    push first
    push second
  | .rot2 => do
    require 6
    -- What lies above the first keeps its depth when the first is taken.
    let first ← remove 5
    let second ← remove 4
    push first
    push second
  | .swap2 => do
    require 4
    exchange 3 1
    exchange 2 0
  | .ifDup => do
    let value ← peek 0
    if Number.truthy value then push value
  | .depth => do
    let s ← get
    pushNumber s.length
  | .drop => do
    let _ ← pop
  | .dup => do
    let value ← peek 0
    push value
  | .nip => do
    require 2
    let _ ← remove 1
  | .over => do
    require 2
    let value ← peek 1
    push value
  | .pick => do
    require 2
    let depth ← popDepth
    let value ← peek depth
    push value
  | .roll => do
    require 2
    let depth ← popDepth
    let value ← remove depth
    push value
  | .rot => do
    require 3
    exchange 2 1
    exchange 1 0
  | .swap => do
    require 2
    exchange 1 0
  | .tuck => do
    require 2
    let value ← peek 0
    insert 2 value
  | .size => do
    let value ← peek 0
    pushNumber value.length

/-- The value of a function of one number. -/
def UnaryOp.apply : UnaryOp → Int → Int
  | .add1, n => n + 1
  | .sub1, n => n - 1
  | .negate, n => -n
  | .abs, n => n.natAbs
  | .not, n => Number.ofBool (n = 0)
  | .notZero, n => Number.ofBool (n ≠ 0)

/-- Replaces a number by the value of a function. -/
def UnaryOp.run (op : UnaryOp) : StackM Unit := do
  let n ← popNumber
  pushNumber (op.apply n)

/-- The value of a function of two numbers, the deeper one first. -/
def BinaryOp.apply : BinaryOp → Int → Int → Int
  | .add, a, b => a + b
  | .sub, a, b => a - b
  | .boolAnd, a, b => Number.ofBool (a ≠ 0 && b ≠ 0)
  | .boolOr, a, b => Number.ofBool (a ≠ 0 || b ≠ 0)
  | .numEqual, a, b => Number.ofBool (a = b)
  | .numNotEqual, a, b => Number.ofBool (a ≠ b)
  | .lessThan, a, b => Number.ofBool (a < b)
  | .greaterThan, a, b => Number.ofBool (a > b)
  | .lessThanOrEqual, a, b => Number.ofBool (a ≤ b)
  | .greaterThanOrEqual, a, b => Number.ofBool (a ≥ b)
  | .min, a, b => Min.min a b
  | .max, a, b => Max.max a b

/-- Replaces two numbers by the value of a function. -/
def BinaryOp.run (op : BinaryOp) : StackM Unit := do
  require 2
  let b ← popNumber
  let a ← popNumber
  pushNumber (op.apply a b)

/-- Tests whether a number is in a range, the upper end of which does not belong
to it. -/
def within : StackM Unit := do
  require 3
  let upper ← popNumber
  let lower ← popNumber
  let value ← popNumber
  pushBool (lower ≤ value && value < upper)

/-- Replaces an element by its digest. -/
def Digest.run (d : Digest) : StackM Unit := do
  let message ← pop
  push (d.apply message)

/-- Tests whether two elements are equal. -/
def testEqual : StackM Unit := do
  require 2
  let a ← pop
  let b ← pop
  pushBool (a == b)

/-! ## Signatures -/

/-- The script code before any signature is removed from it. -/
def Machine.coveredCode (m : Machine) (script : Script) : Script :=
  script.drop m.codeStart

/-- Tests a signature against a public key. -/
def testSignature (rules : Rules) (script : Script) : MachineM Unit := do
  onStack (require 2)
  let pubkey ← onStack pop
  let signature ← onStack pop
  let m ← get
  let scriptCode := (m.coveredCode script).removeSignature signature
  let verdict ← record (rules.checker.consult rules.flags scriptCode signature pubkey)
  onStack (pushBool verdict)

/-- Tests several signatures against several public keys, both counted from the
top. One more element is taken below them, whatever it is. -/
def testSignatures (rules : Rules) (script : Script) : MachineM Unit := do
  let keyCount ← onStack (popCount Machine.maxPubkeys .pubkeyCount)
  -- Each key counts as an operation, whether or not it will be tried.
  addOps keyCount
  onStack (require (keyCount + 1))
  let pubkeys ← onStack (popMany keyCount)
  let signatureCount ← onStack (popCount keyCount .sigCount)
  onStack (require (signatureCount + 1))
  let signatures ← onStack (popMany signatureCount)
  -- The one element more.
  let _ ← onStack pop
  let m ← get
  -- No signature covers another one: all are removed before the first is tested.
  let scriptCode := signatures.foldl Script.removeSignature (m.coveredCode script)
  let verdict ← record (rules.checker.matchAll rules.flags scriptCode signatures pubkeys)
  onStack (pushBool verdict)

/-! ## All operations -/

/-- Replaces the operands of a test by its outcome. -/
def Test.run (rules : Rules) (script : Script) : Test → MachineM Unit
  | .equal => onStack testEqual
  | .numEqual => onStack (BinaryOp.run .numEqual)
  | .checkSig => testSignature rules script
  | .checkMultiSig => testSignatures rules script

/-- The cause of failure when a test that is demanded to succeed does not. -/
def Test.cause : Test → ScriptError
  | .equal => .equalVerify
  | .numEqual => .numEqualVerify
  | .checkSig => .checkSigVerify
  | .checkMultiSig => .checkMultiSigVerify

/-- What an operation does in a branch that runs. Conditionals and code
separators are no operations on their own: they need to know their place. -/
def Operation.execute (rules : Rules) (script : Script) : Operation → MachineM Unit
  | .constant n => onStack (pushNumber n)
  | .nop => pure ()
  | .verify => onStack (StackM.verify .verify)
  | .opReturn => throw .opReturn
  | .toAltStack => do
    let value ← onStack pop
    pushAlt value
  | .fromAltStack => do
    let value ← popAlt
    onStack (push value)
  | .stack op => onStack op.run
  | .unary op => onStack op.run
  | .binary op => onStack op.run
  | .within => onStack LegacyScript.within
  | .digest d => onStack d.run
  | .test t => t.run rules script
  | .testVerify t => do
    t.run rules script
    onStack (StackM.verify t.cause)
  | .pushBytes | .conditional _ | .codeSeparator | .disabled | .reserved => throw .badOpcode

end LegacyScript
