import LegacyScript.Script.Push

/-!
# Deleting from a script

The part of a script that a signature covers leaves out the signature itself and
every code separator. The two deletions are of different kinds:

* `deleteAll` works on bytes: it removes each occurrence of a byte string, and
  `removeSignature` applies it to the push of a signature;
* `stripCodeSeparators` works on instructions: a byte 0xab inside of pushed data
  stays.
-/

namespace LegacyScript.Script

/-- What is left after a deletion, and how many pieces are gone. -/
structure Deletion where
  kept : Bytes
  removed : Nat
  deriving DecidableEq, Repr

/-- Removes each occurrence of `needle`, searching from the front and going on
right behind what was removed. An empty needle does not occur. -/
def deleteAll (needle : Bytes) : Bytes → Deletion
  | [] => ⟨[], 0⟩
  | b :: bs =>
    if needle ≠ [] ∧ needle.isPrefixOf (b :: bs) then
      -- `b` is the first byte of the needle; the others go as well.
      let rest := deleteAll needle (bs.drop (needle.length - 1))
      ⟨rest.kept, rest.removed + 1⟩
    else
      let rest := deleteAll needle bs
      ⟨b :: rest.kept, rest.removed⟩
termination_by bs => bs.length
decreasing_by all_goals simp only [List.length_drop, List.length_cons]; omega

/-- Removes each push of a signature, where the push is written as
`Push.encode` does. -/
def removeSignature (script : Script) (signature : Bytes) : Script :=
  if Push.fits signature then (deleteAll (Push.encode signature) script).kept else script

/-- The bytes of some items of a script without the code separators among them;
from an item that cannot be decoded on, all bytes of the script. -/
def stripItems (script : Script) : List Item → Bytes
  | [] => []
  | item :: items =>
    match item.content with
    -- Nothing behind this place is an instruction, whatever its bytes are.
    | .error _ => script.drop item.start
    | .ok instruction =>
      if instruction = .op Opcode.codeSeparator then stripItems script items
      else item.raw ++ stripItems script items

/-- Removes the code separators. From where the script cannot be decoded any
further, all bytes are kept. -/
def stripCodeSeparators (script : Script) : Script :=
  stripItems script script.items

end LegacyScript.Script
