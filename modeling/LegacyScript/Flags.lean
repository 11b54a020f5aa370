import LegacyScript.Error

/-!
# Verification flags

A verifier is told by flags how strict it has to be about signatures and
public keys. `Flags` is a word that has no bit beyond the four that mean
something; `Flags.ofBits` is how any word becomes one, or is refused.
-/

namespace LegacyScript

namespace Flags

/-- Pay-to-script-hash. The flag is known, and redeem scripts are not run. -/
def p2sh : UInt32 := 1

/-- Signatures must be strictly encoded with a defined hash type, and public
keys in one of the two standard forms. -/
def strictEnc : UInt32 := 2

/-- The S value of a signature must be even. It counts only together with
`strictEnc`. -/
def evenS : UInt32 := 4

/-- Signatures are not to be cached. The flag is known, and nothing is ever
cached. -/
def noCache : UInt32 := 8

/-- All bits that mean something. -/
def supported : UInt32 := p2sh ||| strictEnc ||| evenS ||| noCache

end Flags

/-- A word of verification flags without any unknown bit. -/
structure Flags where
  bits : UInt32
  no_unknown_bit : bits &&& ~~~Flags.supported = 0
  deriving DecidableEq

namespace Flags

/-- No flag is set. -/
def none : Flags := ⟨0, by decide⟩

instance : Inhabited Flags := ⟨none⟩

/-- The flags of a word, unless it has an unknown bit. -/
def ofBits (bits : UInt32) : Except VerifyError Flags :=
  if h : bits &&& ~~~Flags.supported = 0 then .ok ⟨bits, h⟩ else .error (.invalidFlags bits)

/-- Whether every bit of `flag` is set. -/
def contains (flags : Flags) (flag : UInt32) : Bool :=
  flags.bits &&& flag == flag

end Flags

end LegacyScript
