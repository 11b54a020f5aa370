import LegacyScript.Error
import LegacyScript.Opcode
import LegacyScript.Text.Hex

/-!
# The log of a verification

A verification that succeeds logs nothing. One that fails says in which of the two
scripts, and, where a single instruction is to blame, at which one. The lines are
data, so that one can speak of what is logged without its text; `LogLine.render`
is the text.
-/

namespace LegacyScript

/-- The severity of a log line. -/
inductive LogLevel
  | trace | debug
  deriving DecidableEq, Repr

/-- The name of a severity. -/
def LogLevel.name : LogLevel → String
  | .trace => "TRACE"
  | .debug => "DEBUG"

/-- A line in the log. -/
inductive LogLine
  /-- A script is too large to be run. -/
  | scriptTooLarge (size : Nat)
  /-- The item at an offset failed. -/
  | itemFailed (opcode : Opcode) (offset : Nat) (cause : ScriptError)
  | unlockingFailed (cause : ScriptError)
  | lockingFailed (cause : ScriptError)
  /-- Both scripts ran, and the top of the stack is missing or false. -/
  | notTrue (depth : Nat)
  deriving DecidableEq, Repr

namespace LogLine

/-- The severity of a line. -/
def level : LogLine → LogLevel
  | .scriptTooLarge _ | .itemFailed .. => .trace
  | .unlockingFailed _ | .lockingFailed _ | .notTrue _ => .debug

/-- The text of a line. -/
def message : LogLine → String
  | .scriptTooLarge size => "script of " ++ toString size ++ " bytes exceeds the size limit"
  | .itemFailed opcode offset cause =>
    "opcode 0x" ++ String.ofList (Text.Hex.ofByte opcode) ++ " at byte " ++ toString offset
      ++ " failed: " ++ cause.message
  | .unlockingFailed cause => "unlocking script failed: " ++ cause.message
  | .lockingFailed cause => "locking script failed: " ++ cause.message
  | .notTrue depth => "final stack of depth " ++ toString depth ++ " is not true"

/-- A line as it is written. -/
def render (line : LogLine) : String :=
  line.level.name ++ " " ++ line.message

end LogLine

end LegacyScript
