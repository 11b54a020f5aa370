import LegacyScript.Bytes

/-!
# The wire format

Numbers are little-endian words of fixed width, lengths and counts are in
CompactSize, and a byte string stands behind its length. A `Reader` takes what
it reads off the front of a byte string.

CompactSize has one form for each number: a longer form than needed is refused.

There are three ways to read one value from a byte string:

* `decodePartial` says how many bytes the value took;
* `decodeWhole` demands that it take all of them;
* `decodeStream` looks at no more than `streamLimit` bytes, and forgets the rest.
-/

namespace LegacyScript.Wire

/-- Why bytes cannot be read. -/
inductive Error
  /-- There are too few. -/
  | tooShort
  /-- A length or a count is not in its shortest form. -/
  | nonMinimal
  /-- A witness has too many items, or items too large. -/
  | oversized
  /-- The marker of the extended form of a transaction is followed by an unknown
  flag. -/
  | unknownFlag
  /-- The extended form of a transaction is used where nothing needs it. -/
  | superfluousWitness
  /-- There are bytes behind the value. -/
  | trailing
  deriving DecidableEq, Repr

/-- Takes a value off the front of a byte string. -/
abbrev Reader := StateT Bytes (Except Error)

/-! ## Words and byte strings -/

namespace Reader

/-- Takes `n` bytes. -/
def bytes (n : Nat) : Reader Bytes := fun bs =>
  match Bytes.split? n bs with
  | some (front, rest) => .ok (front, rest)
  | none => .error .tooShort

/-- Takes `n` bytes, and keeps in mind that they are `n`. -/
def fixed (n : Nat) : Reader (FixedBytes n) := fun bs =>
  match h : Bytes.split? n bs with
  | some (front, rest) => .ok (⟨front, (Bytes.split?_eq_some_iff.1 h).2⟩, rest)
  | none => .error .tooShort

/-- Takes a little-endian number of `width` bytes. -/
def word (width : Nat) : Reader Nat :=
  Bytes.toNatLE <$> bytes width

/-- Takes `n` values. -/
def list {α : Type} (element : Reader α) : Nat → Reader (List α)
  | 0 => pure []
  | n + 1 => do
    let first ← element
    let others ← list element n
    pure (first :: others)

end Reader

/-! ## CompactSize -/

namespace CompactSize

/-- The shortest form of a number below 2^64. -/
def encode (n : Nat) : Bytes :=
  if n < 0xfd then Bytes.ofNatLE 1 n
  else if n < 0x10000 then 0xfd :: Bytes.ofNatLE 2 n
  else if n < 0x100000000 then 0xfe :: Bytes.ofNatLE 4 n
  else 0xff :: Bytes.ofNatLE 8 n

/-- Takes a number of `width` bytes that is too large for a shorter form. -/
def atLeast (least width : Nat) : Reader Nat := do
  let n ← Reader.word width
  if n < least then throw .nonMinimal else pure n

/-- Takes a number in its shortest form. -/
def read : Reader Nat := do
  let first ← Reader.word 1
  -- A small number stands for itself, the three largest bytes announce its width.
  if first < 0xfd then pure first
  else if first = 0xfd then atLeast 0xfd 2
  else if first = 0xfe then atLeast 0x10000 4
  else atLeast 0x100000000 8

end CompactSize

/-- A byte string behind its length. -/
def encodeBytes (bs : Bytes) : Bytes :=
  CompactSize.encode bs.length ++ bs

/-- Takes a byte string behind its length. -/
def readBytes : Reader Bytes := do
  let size ← CompactSize.read
  Reader.bytes size

/-- Values behind their count. -/
def encodeList {α : Type} (element : α → Bytes) (values : List α) : Bytes :=
  CompactSize.encode values.length ++ values.flatMap element

/-- Takes values behind their count. -/
def readList {α : Type} (element : Reader α) : Reader (List α) := do
  let count ← CompactSize.read
  Reader.list element count

/-! ## Reading one value -/

/-- The value at the front, and the number of bytes that it took. -/
def decodePartial {α : Type} (reader : Reader α) (bs : Bytes) : Except Error (α × Nat) :=
  match reader bs with
  | .ok (value, rest) => .ok (value, bs.length - rest.length)
  | .error cause => .error cause

/-- The value that takes all bytes. -/
def decodeWhole {α : Type} (reader : Reader α) (bs : Bytes) : Except Error α :=
  match reader bs with
  | .ok (value, []) => .ok value
  | .ok (_, _ :: _) => .error .trailing
  | .error cause => .error cause

/-- The most bytes that are looked at when a value is read from a stream. -/
def streamLimit : Nat := 4000000

/-- The value at the front of a stream. -/
def decodeStream {α : Type} (reader : Reader α) (bs : Bytes) : Except Error α :=
  -- The length in front of a byte string counts, too.
  match reader (bs.take streamLimit) with
  | .ok (value, _) => .ok value
  | .error cause => .error cause

end LegacyScript.Wire
