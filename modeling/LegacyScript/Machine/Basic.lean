import LegacyScript.Checker
import LegacyScript.Stack

/-!
# The machine that runs scripts

A `Machine` holds what a script works on: the main stack, the alt stack, a flag
for each open conditional, the operations counted so far, the place where the
part of the script covered by signatures begins, and the calls to the checker.
Only the main stack outlives a script; `load` clears the rest.

A `MachineM` answers or fails, and leaves a machine behind in both cases.
-/

namespace LegacyScript

/-- What a script works on. -/
structure Machine where
  stack : Stack
  alt : Stack
  /-- For each open conditional, the innermost first, whether its current branch
  runs. -/
  branches : List Bool
  /-- The operations counted so far. -/
  opCount : Nat
  /-- The offset behind the last code separator that was executed. -/
  codeStart : Nat
  /-- What the checker was asked, in order. -/
  calls : List Call
  deriving DecidableEq

namespace Machine

/-- The most elements on both stacks together. -/
def maxDepth : Nat := 1000

/-- The most operations that are counted in one script. -/
def maxOps : Nat := 201

/-- The most public keys in one test of several signatures. -/
def maxPubkeys : Nat := 20

/-- The machine with the given main stack, before a script. -/
def ofStack (stack : Stack) : Machine := ⟨stack, [], [], 0, 0, []⟩

/-- The machine before its next script. -/
def load (m : Machine) : Machine := ofStack m.stack

/-- The number of elements on both stacks. -/
def depth (m : Machine) : Nat := m.stack.length + m.alt.length

/-- Whether the current branch runs: all branches around it do. -/
def executing (m : Machine) : Bool := m.branches.all id

end Machine

/-- What a machine is fitted with for all its scripts. -/
structure Rules where
  checker : Checker
  flags : Flags

/-- Something that a machine does: it answers or fails, and leaves a machine
behind. -/
abbrev MachineM := EStateM ScriptError Machine

namespace MachineM

/-- Works on the main stack. -/
def onStack {α : Type} (op : StackM α) : MachineM α := fun m =>
  match op m.stack with
  | .ok a stack => .ok a { m with stack }
  | .error cause stack => .error cause { m with stack }

/-- Counts operations. The one too many is counted, too. -/
def addOps (count : Nat) : MachineM Unit := fun m =>
  let m := { m with opCount := m.opCount + count }
  if Machine.maxOps < m.opCount then .error .opCount m else .ok () m

/-- Puts an element on the alt stack. -/
def pushAlt (value : Bytes) : MachineM Unit := fun m =>
  .ok () { m with alt := value :: m.alt }

/-- Takes the top of the alt stack. -/
def popAlt : MachineM Bytes := fun m =>
  match m.alt with
  | [] => .error .invalidAltStackOperation m
  | value :: alt => .ok value { m with alt }

/-- Opens a conditional whose first branch runs if the condition reads as
`expected`. In a branch that does not run, no condition is taken, and whatever is
opened there does not run either. -/
def openBranch (expected : Bool) : MachineM Unit := fun m =>
  if m.executing then
    match m.stack with
    | [] => .error .unbalancedConditional m
    | value :: stack =>
      .ok () { m with stack, branches := (Number.truthy value == expected) :: m.branches }
  else .ok () { m with branches := false :: m.branches }

/-- Turns to the other branch of the innermost conditional. -/
def flipBranch : MachineM Unit := fun m =>
  match m.branches with
  | [] => .error .unbalancedConditional m
  | runs :: outer => .ok () { m with branches := (!runs) :: outer }

/-- Closes the innermost conditional. -/
def closeBranch : MachineM Unit := fun m =>
  match m.branches with
  | [] => .error .unbalancedConditional m
  | _ :: outer => .ok () { m with branches := outer }

/-- Does something in a branch that runs, and nothing in any other. -/
def whenExecuting (action : MachineM Unit) : MachineM Unit := fun m =>
  if m.executing then action m else .ok () m

/-- Lets signatures cover the script from `offset` on. -/
def setCodeStart (offset : Nat) : MachineM Unit := fun m =>
  .ok () { m with codeStart := offset }

/-- Notes what the checker was asked, and answers its verdict. -/
def record (consultation : Consultation) : MachineM Bool := fun m =>
  .ok consultation.verdict { m with calls := m.calls ++ consultation.calls }

/-- Demands that the stacks be not too deep. -/
def checkDepth : MachineM Unit := fun m =>
  if Machine.maxDepth < m.depth then .error .stackSize m else .ok () m

/-! ## What they do -/

theorem onStack_of_ok {α : Type} {op : StackM α} {m : Machine} {a : α} {stack : Stack}
    (h : op m.stack = .ok a stack) : onStack op m = .ok a { m with stack } := by
  simp only [onStack, h]

theorem onStack_of_error {α : Type} {op : StackM α} {m : Machine} {cause : ScriptError}
    {stack : Stack} (h : op m.stack = .error cause stack) :
    onStack op m = .error cause { m with stack } := by
  simp only [onStack, h]

theorem whenExecuting_of_executing {action : MachineM Unit} {m : Machine}
    (h : m.executing = true) : whenExecuting action m = action m := by
  simp [whenExecuting, h]

theorem whenExecuting_of_not_executing {action : MachineM Unit} {m : Machine}
    (h : m.executing = false) : whenExecuting action m = .ok () m := by
  simp [whenExecuting, h]

end MachineM

end LegacyScript
