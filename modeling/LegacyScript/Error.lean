/-!
# Why a script or a spend fails

`ScriptError` is the cause that stops a script, `VerifyError` the cause that
stops the verification of a spend. Each has one text, given by `message`.
A verdict needs only to know that there was an error; the cause is for the
reader of a report.
-/

namespace LegacyScript

/-- The cause that stops a script. -/
inductive ScriptError
  /-- The script ended, and the top of its stack is missing or false. -/
  | evalFalse
  | opReturn
  | scriptSize
  | pushSize
  | opCount
  | stackSize
  | sigCount
  | pubkeyCount
  | verify
  | equalVerify
  | checkSigVerify
  | checkMultiSigVerify
  | numEqualVerify
  /-- The opcode is reserved, or a conditional that is always wrong. -/
  | badOpcode
  | disabledOpcode
  /-- The byte is no opcode at all. -/
  | unknownOpcode
  | invalidStackOperation
  | invalidAltStackOperation
  | unbalancedConditional
  | numOverflow
  | malformedPush
  deriving DecidableEq, Repr

/-- The text of a cause. -/
def ScriptError.message : ScriptError → String
  | .evalFalse =>
    "script evaluated without error but finished with a false/empty top stack element"
  | .opReturn => "OP_RETURN was encountered"
  | .scriptSize => "script is too big"
  | .pushSize => "push value size limit exceeded"
  | .opCount => "operation limit exceeded"
  | .stackSize => "stack size limit exceeded"
  | .sigCount => "signature count negative or greater than pubkey count"
  | .pubkeyCount => "pubkey count negative or limit exceeded"
  | .verify => "script failed an OP_VERIFY operation"
  | .equalVerify => "script failed an OP_EQUALVERIFY operation"
  | .checkSigVerify => "script failed an OP_CHECKSIGVERIFY operation"
  | .checkMultiSigVerify => "script failed an OP_CHECKMULTISIGVERIFY operation"
  | .numEqualVerify => "script failed an OP_NUMEQUALVERIFY operation"
  | .badOpcode => "opcode missing or not understood"
  | .disabledOpcode => "attempted to use a disabled opcode"
  | .unknownOpcode => "opcode is not in the opcode table"
  | .invalidStackOperation => "operation not valid with the current stack size"
  | .invalidAltStackOperation => "operation not valid with the current altstack size"
  | .unbalancedConditional => "invalid OP_IF construction"
  | .numOverflow => "numeric operand longer than four bytes"
  | .malformedPush => "push runs past the end of the script"

/-- The cause that stops the verification of a spend. -/
inductive VerifyError
  /-- A script ran and rejected the spend. -/
  | script (cause : ScriptError)
  /-- The verification flags have a bit that means nothing. -/
  | invalidFlags (bits : UInt32)
  /-- The transaction has no input of that index. -/
  | inputIndex (index inputs : Nat)
  /-- The bytes are not a transaction. -/
  | undecodable
  /-- The bytes are a transaction, in a form that it is not written in. -/
  | nonCanonical
  deriving DecidableEq, Repr

/-- Lower-case hexadecimal digits of a number, as few as it needs. -/
def hexDigits (n : Nat) : String :=
  String.ofList (Nat.toDigits 16 n)

/-- The text of a cause. -/
def VerifyError.message : VerifyError → String
  | .script cause => "script verification failed: " ++ cause.message
  | .invalidFlags bits =>
    "script verification flags 0x" ++ hexDigits bits.toNat ++ " are invalid"
  | .inputIndex index inputs =>
    "input index " ++ toString index ++ " out of range for a transaction with "
      ++ toString inputs ++ " inputs"
  | .undecodable => "an error deserializing the spending transaction"
  | .nonCanonical => "spending transaction is not canonically encoded"

end LegacyScript
