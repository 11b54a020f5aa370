import LegacyScript.Bytes
import LegacyScript.Error

/-!
# Numbers on the stack

A stack element is read as an integer in sign and magnitude: the magnitude in
base 256, the least significant byte first, and the high bit of the last byte
for the sign. Zero is the empty string.

* `encode` writes an integer in the fewest bytes;
* `decode` reads any byte string, also one with redundant bytes or a negative
  zero;
* `parse` is `decode` for operands, which may not be too long;
* `truthy` is the reading of an element as a condition.
-/

namespace LegacyScript.Number

/-- The longest operand of an arithmetic opcode, in bytes. A result may be
longer, and is then no operand any more. -/
def maxSize : Nat := 4

/-- Puts the sign into the last byte of a magnitude, or into a byte of its own
where the high bit of the last byte is taken. -/
def withSign (negative : Bool) : Bytes → Bytes
  | [] => []
  | [b] =>
    -- The high bit belongs to the magnitude here: the sign needs a byte of its own.
    if b &&& 0x80 ≠ 0 then [b, if negative then 0x80 else 0x00]
    else [if negative then b ||| 0x80 else b]
  | b :: c :: bs => b :: withSign negative (c :: bs)

/-- The fewest bytes that are read as `n`. -/
def encode (n : Int) : Bytes :=
  withSign (n < 0) (Bytes.digitsLE n.natAbs)

/-- The integer that a byte string of any length stands for. -/
def decode (bs : Bytes) : Int :=
  match bs.getLast? with
  | none => 0
  | some last =>
    -- All bits but the high one of the last byte belong to the magnitude.
    let magnitude : Int := Bytes.toNatLE (bs.dropLast ++ [last &&& 0x7f])
    if last &&& 0x80 ≠ 0 then -magnitude else magnitude

/-- The integer that an operand of at most `limit` bytes stands for. -/
def parse (bs : Bytes) (limit : Nat) : Except ScriptError Int :=
  if limit < bs.length then .error .numOverflow else .ok (decode bs)

/-- One for true and zero for false. -/
def ofBool (b : Bool) : Int :=
  if b then 1 else 0

/-- The reading of an element as a condition: true if it has a byte other than
zero, where the last byte may also be a lone sign. -/
def truthy : Bytes → Bool
  | [] => false
  -- A lone sign in the last byte is a negative zero.
  | [b] => b ≠ 0x00 && b ≠ 0x80
  | b :: c :: bs => b ≠ 0x00 || truthy (c :: bs)

end LegacyScript.Number
