import LegacyScript.Number
import LegacyScript.Script.Instruction

/-!
# Writing pushes

`Push.encode` is the shortest instruction that pushes given bytes. The four-byte
length of the longest form bounds what can be pushed at all: `Push.fits` says
so, and `pushData?` refuses what does not fit.

A script is built step by step: `BuildStep.append?` appends one step to a script
and `Script.build?` all of them, where small integers take their own opcodes.
-/

namespace LegacyScript

namespace Push

/-- Whether the length of the data can be written in four bytes. -/
def fits (data : Bytes) : Bool :=
  data.length ≤ 0xffffffff

/-- The opcode and the length that announce `size` bytes. -/
def header (size : Nat) : Bytes :=
  if size ≤ 0x4b then Bytes.ofNatLE 1 size
  else if size ≤ 0xff then 0x4c :: Bytes.ofNatLE 1 size
  else if size ≤ 0xffff then 0x4d :: Bytes.ofNatLE 2 size
  else 0x4e :: Bytes.ofNatLE 4 size

/-- The shortest instruction that pushes `data`. -/
def encode (data : Bytes) : Bytes :=
  header data.length ++ data

/-- A push of that many bytes fits no instruction. -/
structure TooLarge where
  size : Nat
  deriving DecidableEq, Repr

/-- The text of the error. -/
def TooLarge.message (e : TooLarge) : String :=
  "push of " ++ toString e.size ++ " bytes does not fit OP_PUSHDATA4"

/-- The shortest instruction that pushes `data`, if there is one. -/
def encode? (data : Bytes) : Except TooLarge Bytes :=
  if fits data then .ok (encode data) else .error ⟨data.length⟩

end Push

/-- The script with the shortest push of `data` appended. -/
def Script.pushData? (script : Script) (data : Bytes) : Except Push.TooLarge Script :=
  (Push.encode? data).map (script ++ ·)

/-- The shortest bytes of an instruction. -/
def Instruction.encode : Instruction → Bytes
  | .push data => Push.encode data
  | .op code => [code]

/-! ## Building scripts -/

/-- One step in building a script. -/
inductive BuildStep
  /-- Push an integer, by its own opcode if it has one. -/
  | int (value : Int64)
  /-- Push bytes. -/
  | data (bytes : Bytes)
  /-- Append an opcode as it is. -/
  | opcode (code : Opcode)
  deriving DecidableEq

namespace BuildStep

/-- The instruction that pushes an integer. At most nine bytes are pushed, so
that their number is an opcode. -/
def intBytes (value : Int) : Bytes :=
  if value = -1 then [0x4f]
  else if value = 0 then [0x00]
  else if 1 ≤ value ∧ value ≤ 16 then [UInt8.ofNat (0x50 + value.toNat)]
  else
    -- Its length is the opcode that pushes that many bytes.
    let number := Number.encode value
    UInt8.ofNat number.length :: number

/-- The bytes that a step appends. -/
def bytes? : BuildStep → Except Push.TooLarge Bytes
  | .int value => .ok (intBytes value.toInt)
  | .data bytes => Push.encode? bytes
  | .opcode code => .ok [code]

/-- The script with one step appended. -/
def append? (script : Script) (step : BuildStep) : Except Push.TooLarge Script :=
  step.bytes?.map (script ++ ·)

end BuildStep

/-- The script that a list of steps builds. -/
def Script.build? (steps : List BuildStep) : Except Push.TooLarge Script :=
  steps.foldlM BuildStep.append? []

end LegacyScript
