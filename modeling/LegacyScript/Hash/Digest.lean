import LegacyScript.Hash.Ripemd160
import LegacyScript.Hash.Sha1
import LegacyScript.Hash.Sha256
import LegacyScript.Opcode

/-!
# The hash functions of scripts

Five opcodes replace an element by a digest. Two of the functions are
compositions: `hash160` is RIPEMD-160 of SHA-256, `hash256` is SHA-256 twice.
-/

namespace LegacyScript.Digest

/-- The digest of a message. -/
def apply : Digest → Bytes → Bytes
  | .ripemd160, message => Hash.Ripemd160.digest message
  | .sha1, message => Hash.Sha1.digest message
  | .sha256, message => Hash.Sha256.digest message
  | .hash160, message => Hash.Ripemd160.digest (Hash.Sha256.digest message)
  | .hash256, message => Hash.Sha256.double message

/-- The number of bytes in a digest. -/
def size : Digest → Nat
  | .ripemd160 | .sha1 | .hash160 => 20
  | .sha256 | .hash256 => 32

@[simp] theorem length_apply (d : Digest) (message : Bytes) :
    (d.apply message).length = d.size := by
  cases d <;> simp [apply, size]

end LegacyScript.Digest
