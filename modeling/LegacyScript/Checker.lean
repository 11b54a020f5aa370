import LegacyScript.Der.Lax
import LegacyScript.Der.Strict
import LegacyScript.Script.Deletion
import LegacyScript.Transaction.SignatureHash

/-!
# Checking signatures

A running script knows nothing of transactions. It hands signatures to a
`Checker`, which answers three questions: is a signature acceptable in form, is
a public key, and does the signature match the key over a script code.

* `Checker.consult` asks the questions in turn, and stops at the first no;
* `Checker.matchAll` does so for several signatures and keys in order;
* `Transaction.checker` is the checker for one input of a transaction.

Every question that was asked is recorded as a `Call`.
-/

namespace LegacyScript

/-- Answers a script's questions about signatures. -/
structure Checker where
  /-- Does the signature match the public key over the script code? The last byte
  of the signature is its hash type. -/
  checkSig : (signature pubkey : Bytes) → (scriptCode : Script) → Bool
  /-- Is the signature acceptable in form? -/
  acceptsSignature : Bytes → Flags → Bool := isCanonicalSignature
  /-- Is the public key acceptable in form? -/
  acceptsPubkey : Bytes → Flags → Bool := isCanonicalPubkey

/-- A question to a checker. -/
inductive Question
  | acceptsSignature (signature : Bytes)
  | acceptsPubkey (pubkey : Bytes)
  | checkSig (signature pubkey : Bytes) (scriptCode : Script)
  deriving DecidableEq, Repr

/-- A question with its answer. -/
structure Call where
  question : Question
  answer : Bool
  deriving DecidableEq, Repr

/-- What came of asking a checker: the verdict, and all calls in order. -/
structure Consultation where
  verdict : Bool
  calls : List Call
  deriving DecidableEq, Repr

namespace Checker

/-- The answer to a question. -/
def answer (checker : Checker) (flags : Flags) : Question → Bool
  | .acceptsSignature signature => checker.acceptsSignature signature flags
  | .acceptsPubkey pubkey => checker.acceptsPubkey pubkey flags
  | .checkSig signature pubkey scriptCode => checker.checkSig signature pubkey scriptCode

/-- Asks questions in turn, up to the first no. -/
def askAll (checker : Checker) (flags : Flags) : List Question → Consultation
  | [] => ⟨true, []⟩
  | question :: questions =>
    if checker.answer flags question then
      let others := askAll checker flags questions
      ⟨others.verdict, ⟨question, true⟩ :: others.calls⟩
    else ⟨false, [⟨question, false⟩]⟩

/-- Whether a signature is good for a key: both are acceptable, and they match. -/
def consult (checker : Checker) (flags : Flags) (scriptCode : Script)
    (signature pubkey : Bytes) : Consultation :=
  checker.askAll flags
    [.acceptsSignature signature, .acceptsPubkey pubkey, .checkSig signature pubkey scriptCode]

/-- Whether all signatures find a key of their own, where both are taken in
order. Each key is tried at most once, with the first signature that has none
yet; when more signatures are left than keys, the rest is not tried. -/
def matchAll (checker : Checker) (flags : Flags) (scriptCode : Script) :
    (signatures pubkeys : List Bytes) → Consultation
  | [], _ => ⟨true, []⟩
  | _ :: _, [] => ⟨false, []⟩
  | signature :: signatures, pubkey :: pubkeys =>
    let tried := checker.consult flags scriptCode signature pubkey
    -- The key is used up in any case, the signature only when it matches.
    let left := if tried.verdict then signatures else signature :: signatures
    if pubkeys.length < left.length then ⟨false, tried.calls⟩
    else
      let others := matchAll checker flags scriptCode left pubkeys
      ⟨others.verdict, tried.calls ++ others.calls⟩

end Checker

/-! ## Transactions -/

namespace Transaction

/-- Whether a signature for input `index` matches a public key. A hash type other
than zero is demanded of the signature; zero leaves it to the signature. -/
def checkSig (tx : Transaction) (index : Nat) (demanded : UInt32)
    (signature pubkey : Bytes) (scriptCode : Script) : Bool :=
  match Secp256k1.PublicKey.ofBytes? pubkey, signature.getLast? with
  | some key, some last =>
    let hashType := last.toUInt32
    -- The hash type is no part of the encoding of the two numbers.
    if demanded ≠ 0 ∧ demanded ≠ hashType then false
    else
      match Der.signature? signature.dropLast,
        tx.signatureHash? index (Script.stripCodeSeparators scriptCode) hashType with
      | some numbers, some digest => numbers.lowS.verifies key digest
      | _, _ => false
  | _, _ => false

/-- The checker for input `index` of a transaction. -/
def checker (tx : Transaction) (index : Nat) (demanded : UInt32) : Checker :=
  { checkSig := tx.checkSig index demanded }

end Transaction

end LegacyScript
