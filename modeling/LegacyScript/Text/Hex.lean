import LegacyScript.Bytes

/-!
# Hexadecimal text

Bytes are written with two lower-case digits each, and read from digits of
either case.
-/

namespace LegacyScript.Text.Hex

/-- The digit of a number below sixteen. -/
def digit (n : Nat) : Char :=
  if n < 10 then Char.ofNat ('0'.toNat + n) else Char.ofNat ('a'.toNat + n - 10)

/-- The value of a digit of either case. -/
def value? (c : Char) : Option Nat :=
  if '0' ≤ c ∧ c ≤ '9' then some (c.toNat - '0'.toNat)
  else if 'a' ≤ c ∧ c ≤ 'f' then some (c.toNat - 'a'.toNat + 10)
  else if 'A' ≤ c ∧ c ≤ 'F' then some (c.toNat - 'A'.toNat + 10)
  else none

/-- The two digits of a byte. -/
def ofByte (b : UInt8) : List Char :=
  [digit (b.toNat / 16), digit (b.toNat % 16)]

/-- The byte of two digits. -/
def toByte? (high low : Char) : Option UInt8 :=
  match value? high, value? low with
  | some h, some l => some (UInt8.ofNat (16 * h + l))
  | _, _ => none

/-- The digits of a byte string. -/
def encode (bs : Bytes) : String :=
  String.ofList (bs.flatMap ofByte)

/-- Reads digits in pairs behind the bytes already read, which stand in reverse. -/
def decodeOnto (read : Bytes) : List Char → Option Bytes
  | [] => some read.reverse
  | high :: low :: rest =>
    match toByte? high low with
    | some b => decodeOnto (b :: read) rest
    | none => none
  | [_] => none

/-- The bytes of an even number of digits. -/
def decode? (digits : List Char) : Option Bytes :=
  decodeOnto [] digits

end LegacyScript.Text.Hex
