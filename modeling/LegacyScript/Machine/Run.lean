import LegacyScript.Log
import LegacyScript.Machine.Execute

/-!
# Running scripts

A script is run item by item. `step` is what one item does to a machine,
`Script.run` runs a whole script and reports how it went: the result, the machine
that is left, the number of items that were read, the greatest depth of the stacks
after an item, and what is to be logged.

A script stops at the first item that fails, and the machine is left as that item
made it.
-/

namespace LegacyScript

/-! ## One item -/

open StackM MachineM

/-- What a conditional does. -/
def Conditional.run : Conditional → MachineM Unit
  | .opIf => openBranch true
  | .opNotIf => openBranch false
  | .opElse => flipBranch
  | .opEndIf => closeBranch
  | .opVerIf | .opVerNotIf => throw .badOpcode

/-- What an operation does whose opcode ends at offset `stop`. Being disabled
matters in every branch, and so do conditionals. -/
def Operation.run (rules : Rules) (script : Script) (stop : Nat) : Operation → MachineM Unit
  | .disabled => throw .disabledOpcode
  | .conditional c => c.run
  | .codeSeparator => whenExecuting (setCodeStart stop)
  | operation => whenExecuting (operation.execute rules script)

/-- Takes an opcode from the budget of operations, if it is one that counts. -/
def countOpcode (code : Opcode) : MachineM Unit :=
  if code.isCounted then addOps 1 else pure ()

/-- What an item does. Whether its opcode is known, the budget of operations and
the size of pushed data matter in every branch. -/
def runItem (rules : Rules) (script : Script) (item : Item) : MachineM Unit :=
  match item.content with
  | .error _ => throw .malformedPush
  | .ok (.push data) =>
    if Script.maxElementSize < data.length then throw .pushSize
    else whenExecuting (onStack (push data))
  | .ok (.op code) =>
    match code.operation? with
    | none => throw .unknownOpcode
    | some operation => do
      countOpcode code
      operation.run rules script item.stop

/-- What an item does, with the check that follows it. -/
def step (rules : Rules) (script : Script) (item : Item) : MachineM Unit := do
  runItem rules script item
  checkDepth

/-! ## Whole scripts -/

/-- How a run went. -/
structure Report where
  result : Except ScriptError Unit
  /-- The machine that is left. -/
  machine : Machine
  /-- The number of items read, the failing one included. -/
  steps : Nat
  /-- The greatest depth of both stacks after an item that did not fail. -/
  maxDepth : Nat
  log : List LogLine

namespace Script

/-- Runs the items of a script that are left, behind `steps` items that took the
stacks to the depth `maxDepth` at most. -/
def runItems (rules : Rules) (script : Script) :
    List Item → (m : Machine) → (steps maxDepth : Nat) → Report
  | [], m, steps, maxDepth =>
    ⟨if m.branches.isEmpty then .ok () else .error .unbalancedConditional, m, steps, maxDepth, []⟩
  | item :: items, m, steps, maxDepth =>
    match step rules script item m with
    | .ok () m => runItems rules script items m (steps + 1) (Max.max maxDepth m.depth)
    | .error cause m =>
      ⟨.error cause, m, steps + 1, maxDepth, [.itemFailed item.opcode item.start cause]⟩

/-- Runs a script on a machine, of which only the main stack counts. -/
def run (rules : Rules) (m : Machine) (script : Script) : Report :=
  -- Nothing but the main stack is left of earlier scripts.
  let m := m.load
  if maxSize < script.length then
    ⟨.error .scriptSize, m, 0, 0, [.scriptTooLarge script.length]⟩
  else
    runItems rules script script.items m 0 0

end Script

end LegacyScript
