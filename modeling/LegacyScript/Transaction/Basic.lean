import LegacyScript.Error
import LegacyScript.Script.Instruction
import LegacyScript.Wire

/-!
# Transactions

A transaction spends outputs of earlier transactions by its inputs and makes new
outputs. On the wire it has two forms. The plain form lists inputs and outputs.
The extended form, marked by a count of zero inputs followed by a flag, adds a
witness for each input; it is used when some input has a witness, and when there
is no input at all.

* `Transaction.encode` writes a transaction, `Transaction.read` takes one off
  the front of a byte string, and refuses each form that `encode` does not use;
* `Transaction.parse` reads a whole byte string.
-/

namespace LegacyScript

/-- An output of an earlier transaction, named by the hash of that transaction
and the index of the output. -/
structure OutPoint where
  hash : FixedBytes 32
  index : UInt32
  deriving DecidableEq

/-- An input: what it spends, and the script that unlocks it. -/
structure TxInput where
  previous : OutPoint
  unlocking : Script
  sequence : UInt32
  witness : List Bytes
  deriving DecidableEq

/-- An output: its value, and the script that locks it. -/
structure TxOutput where
  value : UInt64
  locking : Script
  deriving DecidableEq

/-- A transaction. -/
structure Transaction where
  version : Int32
  inputs : List TxInput
  outputs : List TxOutput
  lockTime : UInt32
  deriving DecidableEq

/-! ## Parts -/

namespace OutPoint

/-- The bytes of an outpoint. -/
def encode (point : OutPoint) : Bytes :=
  point.hash.val ++ Bytes.ofNatLE 4 point.index.toNat

/-- Takes an outpoint. -/
def read : Wire.Reader OutPoint := do
  let hash ← Wire.Reader.fixed 32
  let index ← Wire.Reader.word 4
  pure ⟨hash, UInt32.ofNat index⟩

end OutPoint

namespace TxInput

/-- The bytes of an input. The witness stands elsewhere. -/
def encode (input : TxInput) : Bytes :=
  input.previous.encode ++ Wire.encodeBytes input.unlocking
    ++ Bytes.ofNatLE 4 input.sequence.toNat

/-- Takes an input, as yet without a witness. -/
def read : Wire.Reader TxInput := do
  let previous ← OutPoint.read
  let unlocking ← Wire.readBytes
  let sequence ← Wire.Reader.word 4
  pure ⟨previous, unlocking, UInt32.ofNat sequence, []⟩

end TxInput

namespace TxOutput

/-- The bytes of an output. -/
def encode (output : TxOutput) : Bytes :=
  Bytes.ofNatLE 8 output.value.toNat ++ Wire.encodeBytes output.locking

/-- Takes an output. -/
def read : Wire.Reader TxOutput := do
  let value ← Wire.Reader.word 8
  let locking ← Wire.readBytes
  pure ⟨UInt64.ofNat value, locking⟩

end TxOutput

namespace Witness

/-- The most items that a witness may announce, and the most bytes that its
items may take. -/
def limit : Nat := 4000000

/-- Takes `count` items that take at most `room` bytes together. -/
def readItems : (count room : Nat) → Wire.Reader (List Bytes)
  | 0, _ => pure []
  | count + 1, room => do
    let size ← Wire.CompactSize.read
    -- An item takes its bytes and those of its length.
    let taken := (Wire.CompactSize.encode size).length + size
    if room < taken then throw .oversized
    let item ← Wire.Reader.bytes size
    let items ← readItems count (room - taken)
    pure (item :: items)

/-- Takes a witness. -/
def read : Wire.Reader (List Bytes) := do
  let count ← Wire.CompactSize.read
  if limit < count then throw .oversized
  readItems count limit

/-- The bytes of a witness. -/
def encode (items : List Bytes) : Bytes :=
  Wire.encodeList Wire.encodeBytes items

end Witness

/-! ## The two forms -/

namespace Transaction

/-- Whether the extended form is used. -/
def isExtended (tx : Transaction) : Bool :=
  tx.inputs.isEmpty || tx.inputs.any (!·.witness.isEmpty)

/-- The bytes of the version. -/
def encodeVersion (version : Int32) : Bytes :=
  Bytes.ofNatLE 4 version.toUInt32.toNat

/-- The bytes of a transaction. -/
def encode (tx : Transaction) : Bytes :=
  let body := Wire.encodeList TxInput.encode tx.inputs
    ++ Wire.encodeList TxOutput.encode tx.outputs
  let lockTime := Bytes.ofNatLE 4 tx.lockTime.toNat
  if tx.isExtended then
    encodeVersion tx.version ++ [0x00, 0x01] ++ body
      ++ tx.inputs.flatMap (fun input => Witness.encode input.witness) ++ lockTime
  else
    encodeVersion tx.version ++ body ++ lockTime

/-- Takes a witness for each input. -/
def readWitnesses : List TxInput → Wire.Reader (List TxInput)
  | [] => pure []
  | input :: inputs => do
    let witness ← Witness.read
    let others ← readWitnesses inputs
    pure ({ input with witness } :: others)

/-- Takes what stands behind the marker of the extended form. -/
def readExtended (version : Int32) : Wire.Reader Transaction := do
  let flag ← Wire.Reader.word 1
  if flag ≠ 1 then throw .unknownFlag
  -- The witnesses follow behind the outputs, one for each input.
  let bare ← Wire.readList TxInput.read
  let outputs ← Wire.readList TxOutput.read
  let inputs ← readWitnesses bare
  -- Such a transaction is written in the plain form.
  if !inputs.isEmpty && inputs.all (·.witness.isEmpty) then throw .superfluousWitness
  let lockTime ← Wire.Reader.word 4
  pure ⟨version, inputs, outputs, UInt32.ofNat lockTime⟩

/-- Takes a transaction. -/
def read : Wire.Reader Transaction := do
  let version ← Wire.Reader.word 4
  let version := (UInt32.ofNat version).toInt32
  let inputs ← Wire.readList TxInput.read
  -- A count of zero is the marker of the extended form, never that of the plain one.
  if inputs.isEmpty then readExtended version
  else
    let outputs ← Wire.readList TxOutput.read
    let lockTime ← Wire.Reader.word 4
    pure ⟨version, inputs, outputs, UInt32.ofNat lockTime⟩

/-- The transaction that takes all of the bytes and is written in the form that
`encode` uses. -/
def parse (bs : Bytes) : Except VerifyError Transaction :=
  match Wire.decodeWhole read bs with
  | .error _ => .error .undecodable
  | .ok tx => if tx.encode.length ≠ bs.length then .error .nonCanonical else .ok tx

/-! ## Inputs -/

/-- The input of an index, or the error that there is none. -/
def input (tx : Transaction) (index : Nat) : Except VerifyError TxInput :=
  match tx.inputs[index]? with
  | some input => .ok input
  | none => .error (.inputIndex index tx.inputs.length)

/-- The script that unlocks the input of an index. -/
def unlocking (tx : Transaction) (index : Nat) : Except VerifyError Script :=
  (tx.input index).map TxInput.unlocking

end Transaction

end LegacyScript
