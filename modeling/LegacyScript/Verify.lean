import LegacyScript.Machine.Run
import LegacyScript.Script.Text

/-!
# Verifying a spend

An output of a Bitcoin transaction is spent rightly if its locking script, run on
the stack that the unlocking script of the spending input has left, ends with a
true element on top.

* `verifyScripts` runs two scripts with any checker;
* `Transaction.verifyInput` runs them with the checker for one input;
* `verifySpend` takes the unlocking script from the bytes of a transaction;
* `Transaction.evaluate` runs a single script.
-/

namespace LegacyScript

/-- How a verification went. -/
structure Verification where
  result : Except VerifyError Unit
  /-- What the checker was asked in both scripts. -/
  calls : List Call
  log : List LogLine

/-- A verification that fails before any script is run. -/
def Verification.refused (cause : VerifyError) : Verification :=
  ⟨.error cause, [], []⟩

/-- Runs an unlocking script, and a locking script on the stack that it leaves. -/
def verifyScripts (rules : Rules) (unlocking locking : Script) : Verification :=
  let first := unlocking.run rules (Machine.ofStack [])
  match first.result with
  | .error cause =>
    ⟨.error (.script cause), first.machine.calls, first.log ++ [.unlockingFailed cause]⟩
  | .ok () =>
    -- The second script finds the stack of the first, and nothing else of it.
    let second := locking.run rules first.machine
    let calls := first.machine.calls ++ second.machine.calls
    match second.result with
    | .error cause => ⟨.error (.script cause), calls, second.log ++ [.lockingFailed cause]⟩
    | .ok () =>
      let stack := second.machine.stack
      if stack.isTrue then ⟨.ok (), calls, []⟩
      else ⟨.error (.script .evalFalse), calls, [.notTrue stack.length]⟩

namespace Transaction

/-- Runs two scripts for input `index` of a transaction. -/
def verifyInput (tx : Transaction) (index : Nat) (unlocking locking : Script)
    (flags demanded : UInt32) : Verification :=
  match Flags.ofBits flags with
  | .error cause => .refused cause
  | .ok flags => verifyScripts ⟨tx.checker index demanded, flags⟩ unlocking locking

/-- Runs one script for input `index` of a transaction. -/
def evaluate (tx : Transaction) (index : Nat) (script : Script) (stack : Stack)
    (flags : Flags) (demanded : UInt32) : Report :=
  script.run ⟨tx.checker index demanded, flags⟩ (Machine.ofStack stack)

end Transaction

/-- Runs the unlocking script of input `index` of a transaction, given by its
bytes, and the locking script of the output that the input spends. -/
def verifySpend (locking : Script) (transaction : Bytes) (index : Nat) (flags : UInt32) :
    Verification :=
  match Transaction.parse transaction with
  | .error cause => .refused cause
  | .ok tx =>
    match tx.unlocking index with
    | .error cause => .refused cause
    | .ok unlocking => tx.verifyInput index unlocking locking flags 0

end LegacyScript
