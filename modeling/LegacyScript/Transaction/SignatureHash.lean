import LegacyScript.Hash.Sha256
import LegacyScript.Transaction.Basic

/-!
# What a signature signs

A signature of an input signs a digest of the transaction in a reduced form. The
hash type chooses the reduction: which outputs are kept, and whether the other
inputs are. The signed input carries the script code in place of its unlocking
script, the others carry none, and no witness is written.

`Transaction.signatureHash?` is the digest.
-/

namespace LegacyScript

/-- Which outputs a signature covers. -/
inductive OutputScope
  | all
  /-- No output, and not the sequences of the other inputs. -/
  | none
  /-- The output with the index of the signed input, and not the sequences of the
  other inputs. -/
  | single
  deriving DecidableEq, Repr

/-- What a signature covers. -/
structure HashScope where
  outputs : OutputScope
  /-- Whether the signed input is the only one that is covered. -/
  onlyOneInput : Bool
  deriving DecidableEq, Repr

/-- The scope that a hash type stands for. Types without a meaning cover all
outputs. -/
def HashScope.ofHashType (hashType : UInt32) : HashScope where
  outputs :=
    if hashType &&& 0x1f = 2 then .none
    else if hashType &&& 0x1f = 3 then .single
    else .all
  onlyOneInput := hashType &&& 0x80 ≠ 0

namespace Transaction

/-- The signed input: it carries the script code. -/
def signedInput (scriptCode : Script) (input : TxInput) : TxInput :=
  { input with unlocking := scriptCode, witness := [] }

/-- Any other input: it carries no script, and a sequence only where all outputs
are covered. -/
def otherInput (scope : OutputScope) (input : TxInput) : TxInput :=
  { input with
    unlocking := []
    witness := []
    sequence := if scope = .all then input.sequence else 0 }

/-- The inputs that a signature of input `index` covers. -/
def coveredInputs (tx : Transaction) (index : Nat) (scriptCode : Script) (scope : HashScope) :
    List TxInput :=
  if scope.onlyOneInput then
    (tx.inputs[index]?.map (signedInput scriptCode)).toList
  else
    tx.inputs.mapIdx fun i input =>
      if i = index then signedInput scriptCode input else otherInput scope.outputs input

/-- Stands in for an output in front of the only one that is covered. -/
def blankOutput : TxOutput := ⟨0xffffffffffffffff, []⟩

/-- The outputs that a signature of input `index` covers. -/
def coveredOutputs (tx : Transaction) (index : Nat) (scope : HashScope) : List TxOutput :=
  match scope.outputs with
  | .all => tx.outputs
  | .none => []
  -- The output keeps its index, with blanks in front of it.
  | .single => List.replicate index blankOutput ++ tx.outputs[index]?.toList

/-- The bytes that a signature of input `index` covers. -/
def signedBytes (tx : Transaction) (index : Nat) (scriptCode : Script) (hashType : UInt32) :
    Bytes :=
  let scope := HashScope.ofHashType hashType
  encodeVersion tx.version
    ++ Wire.encodeList TxInput.encode (tx.coveredInputs index scriptCode scope)
    ++ Wire.encodeList TxOutput.encode (tx.coveredOutputs index scope)
    ++ Bytes.ofNatLE 4 tx.lockTime.toNat ++ Bytes.ofNatLE 4 hashType.toNat

/-- What is signed where the only output to be covered does not exist: the number
one, its least significant byte first. -/
def missingOutputHash : Bytes :=
  0x01 :: List.replicate 31 0x00

/-- The digest that a signature of input `index` signs, if there is that input. -/
def signatureHash? (tx : Transaction) (index : Nat) (scriptCode : Script) (hashType : UInt32) :
    Option Bytes :=
  if tx.inputs.length ≤ index then none
  -- Without its output, a signature of a single output covers nothing at all.
  else if (HashScope.ofHashType hashType).outputs = .single ∧ tx.outputs.length ≤ index then
    some missingOutputHash
  else
    some (Hash.Sha256.double (tx.signedBytes index scriptCode hashType))

end Transaction

end LegacyScript
