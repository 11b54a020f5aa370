import LegacyScript.Bytes
import LegacyScript.Flags

/-!
# Strict encodings

With the flag `strictEnc`, a signature has to be written as

```text
0x30 length 0x02 length-of-r r 0x02 length-of-s s hash-type
```

with both integers in the fewest bytes and a defined hash type, and a public key
as a point in one of two forms. `StrictSignature.ofBytes?` takes a signature
apart, and `isCanonicalSignature` and `isCanonicalPubkey` are the two demands.
-/

namespace LegacyScript

/-- The parts of a strictly encoded signature. -/
structure StrictSignature where
  /-- The bytes of the first integer, the most significant first. -/
  r : Bytes
  /-- The bytes of the second integer. -/
  s : Bytes
  hashType : UInt8
  deriving DecidableEq, Repr

namespace StrictSignature

/-- The bytes of a signature with the given parts. -/
def encode (parts : StrictSignature) : Bytes :=
  0x30 :: UInt8.ofNat (parts.r.length + parts.s.length + 4)
    :: 0x02 :: UInt8.ofNat parts.r.length :: parts.r
    ++ 0x02 :: UInt8.ofNat parts.s.length :: parts.s
    ++ [parts.hashType]

/-- The parts of a signature, if tags and lengths are as they should be. -/
def ofBytes? : Bytes → Option StrictSignature
  | 0x30 :: total :: 0x02 :: sizeR :: bs => do
    let (r, bs) ← Bytes.split? sizeR.toNat bs
    match bs with
    | 0x02 :: sizeS :: bs =>
      let (s, bs) ← Bytes.split? sizeS.toNat bs
      match bs with
      -- Nothing but the hash type is left, so the total length is known.
      | [hashType] =>
        if total.toNat = r.length + s.length + 4 then some ⟨r, s, hashType⟩ else none
      | _ => none
    | _ => none
  | _ => none

/-- Whether bytes are a number in as few bytes as it needs: there is at least
one, the high bit of the first is free for the sign, and a leading zero stands
only where it keeps that bit free. -/
def isMinimal : Bytes → Bool
  | [] => false
  | [b] => b < 0x80
  | b :: c :: _ => b < 0x80 && (b ≠ 0x00 || 0x80 ≤ c)

/-- Whether the last byte makes a number even. -/
def isEven (bs : Bytes) : Bool :=
  match bs.getLast? with
  | some last => last &&& 1 == 0
  | none => true

/-- Whether a hash type is one of the three defined ones, with or without the
bit that lets anyone add inputs. -/
def isDefinedHashType (hashType : UInt8) : Bool :=
  let base := hashType &&& 0x7f
  1 ≤ base && base ≤ 3

/-- The length of the longest signature. -/
def maxSize : Nat := 73

end StrictSignature

/-- Whether a signature, with its hash type, is acceptable under the flags. -/
def isCanonicalSignature (signature : Bytes) (flags : Flags) : Bool :=
  if !flags.contains Flags.strictEnc then true
  else if StrictSignature.maxSize < signature.length then false
  else match StrictSignature.ofBytes? signature with
    | none => false
    | some parts =>
      StrictSignature.isDefinedHashType parts.hashType
        && StrictSignature.isMinimal parts.r && StrictSignature.isMinimal parts.s
        && (!flags.contains Flags.evenS || StrictSignature.isEven parts.s)

/-- Whether a public key is acceptable under the flags. -/
def isCanonicalPubkey (pubkey : Bytes) (flags : Flags) : Bool :=
  if !flags.contains Flags.strictEnc then true
  else match pubkey with
    | [] => false
    | tag :: _ =>
      if tag = 0x04 then pubkey.length = 65
      else if tag = 0x02 ∨ tag = 0x03 then pubkey.length = 33
      else false

end LegacyScript
