/-!
# Opcodes

An opcode is a byte. What it stands for is an `Operation`, and one table, `rows`,
gives the mnemonic and the operation of each opcode that has one. The opcodes
from 0x01 to 0x4b push as many bytes as their number says and have no mnemonic.

All that a verifier asks of a single opcode is read off the table:

* `operation?` is what it stands for, `none` for a byte that is no opcode;
* `name?` and `ofName?` go to the mnemonic and back;
* `isKnown`, `isDisabled`, `isConditional` sort it;
* `isCounted` says whether it takes from the budget of operations.
-/

namespace LegacyScript

/-! ## Operations -/

/-- The opcodes that steer execution. They are obeyed in a branch that does not
run, too. `opVerIf` and `opVerNotIf` are always wrong. -/
inductive Conditional
  | opIf | opNotIf | opVerIf | opVerNotIf | opElse | opEndIf
  deriving DecidableEq, Repr

/-- The opcodes that rearrange the main stack. -/
inductive StackOp
  | drop2 | dup2 | dup3 | over2 | rot2 | swap2
  | ifDup | depth | drop | dup | nip | over | pick | roll | rot | swap | tuck | size
  deriving DecidableEq, Repr

/-- Arithmetic on one number. -/
inductive UnaryOp
  | add1 | sub1 | negate | abs | not | notZero
  deriving DecidableEq, Repr

/-- Arithmetic on two numbers. -/
inductive BinaryOp
  | add | sub | boolAnd | boolOr | numEqual | numNotEqual | lessThan | greaterThan
  | lessThanOrEqual | greaterThanOrEqual | min | max
  deriving DecidableEq, Repr

/-- The hash functions that can be applied to an element. -/
inductive Digest
  | ripemd160 | sha1 | sha256 | hash160 | hash256
  deriving DecidableEq, Repr

/-- The tests that leave a boolean, and that also come fused with a demand that
it be true. -/
inductive Test
  | equal | numEqual | checkSig | checkMultiSig
  deriving DecidableEq, Repr

/-- What an opcode stands for. -/
inductive Operation
  /-- Pushes bytes of the script itself; the decoder has dealt with it. -/
  | pushBytes
  /-- Pushes a fixed number. -/
  | constant (n : Int)
  | nop
  | conditional (c : Conditional)
  /-- Demands that the top element be true. -/
  | verify
  /-- Fails. -/
  | opReturn
  | toAltStack
  | fromAltStack
  | stack (op : StackOp)
  | unary (op : UnaryOp)
  | binary (op : BinaryOp)
  | within
  | digest (d : Digest)
  | test (t : Test)
  /-- A test together with the demand that it succeed. -/
  | testVerify (t : Test)
  /-- Marks where the part of the script that signatures cover begins. -/
  | codeSeparator
  /-- Fails wherever it stands, also where it is not executed. -/
  | disabled
  /-- Has a name and no meaning: fails where it is executed. -/
  | reserved
  deriving DecidableEq, Repr

/-- An opcode is a byte. -/
abbrev Opcode := UInt8

namespace Opcode

/-! ## The table -/

/-- An opcode that has a mnemonic, with what it stands for. -/
structure Row where
  opcode : Opcode
  name : String
  operation : Operation

/-- All opcodes that have a mnemonic. -/
def rows : List Row := [
  ⟨0x00, "OP_0", .pushBytes⟩,
  ⟨0x4c, "OP_PUSHDATA1", .pushBytes⟩,
  ⟨0x4d, "OP_PUSHDATA2", .pushBytes⟩,
  ⟨0x4e, "OP_PUSHDATA4", .pushBytes⟩,
  ⟨0x4f, "OP_1NEGATE", .constant (-1)⟩,
  ⟨0x50, "OP_RESERVED", .reserved⟩,
  ⟨0x51, "OP_1", .constant 1⟩,
  ⟨0x52, "OP_2", .constant 2⟩,
  ⟨0x53, "OP_3", .constant 3⟩,
  ⟨0x54, "OP_4", .constant 4⟩,
  ⟨0x55, "OP_5", .constant 5⟩,
  ⟨0x56, "OP_6", .constant 6⟩,
  ⟨0x57, "OP_7", .constant 7⟩,
  ⟨0x58, "OP_8", .constant 8⟩,
  ⟨0x59, "OP_9", .constant 9⟩,
  ⟨0x5a, "OP_10", .constant 10⟩,
  ⟨0x5b, "OP_11", .constant 11⟩,
  ⟨0x5c, "OP_12", .constant 12⟩,
  ⟨0x5d, "OP_13", .constant 13⟩,
  ⟨0x5e, "OP_14", .constant 14⟩,
  ⟨0x5f, "OP_15", .constant 15⟩,
  ⟨0x60, "OP_16", .constant 16⟩,
  ⟨0x61, "OP_NOP", .nop⟩,
  ⟨0x62, "OP_VER", .reserved⟩,
  ⟨0x63, "OP_IF", .conditional .opIf⟩,
  ⟨0x64, "OP_NOTIF", .conditional .opNotIf⟩,
  ⟨0x65, "OP_VERIF", .conditional .opVerIf⟩,
  ⟨0x66, "OP_VERNOTIF", .conditional .opVerNotIf⟩,
  ⟨0x67, "OP_ELSE", .conditional .opElse⟩,
  ⟨0x68, "OP_ENDIF", .conditional .opEndIf⟩,
  ⟨0x69, "OP_VERIFY", .verify⟩,
  ⟨0x6a, "OP_RETURN", .opReturn⟩,
  ⟨0x6b, "OP_TOALTSTACK", .toAltStack⟩,
  ⟨0x6c, "OP_FROMALTSTACK", .fromAltStack⟩,
  ⟨0x6d, "OP_2DROP", .stack .drop2⟩,
  ⟨0x6e, "OP_2DUP", .stack .dup2⟩,
  ⟨0x6f, "OP_3DUP", .stack .dup3⟩,
  ⟨0x70, "OP_2OVER", .stack .over2⟩,
  ⟨0x71, "OP_2ROT", .stack .rot2⟩,
  ⟨0x72, "OP_2SWAP", .stack .swap2⟩,
  ⟨0x73, "OP_IFDUP", .stack .ifDup⟩,
  ⟨0x74, "OP_DEPTH", .stack .depth⟩,
  ⟨0x75, "OP_DROP", .stack .drop⟩,
  ⟨0x76, "OP_DUP", .stack .dup⟩,
  ⟨0x77, "OP_NIP", .stack .nip⟩,
  ⟨0x78, "OP_OVER", .stack .over⟩,
  ⟨0x79, "OP_PICK", .stack .pick⟩,
  ⟨0x7a, "OP_ROLL", .stack .roll⟩,
  ⟨0x7b, "OP_ROT", .stack .rot⟩,
  ⟨0x7c, "OP_SWAP", .stack .swap⟩,
  ⟨0x7d, "OP_TUCK", .stack .tuck⟩,
  ⟨0x7e, "OP_CAT", .disabled⟩,
  ⟨0x7f, "OP_SUBSTR", .disabled⟩,
  ⟨0x80, "OP_LEFT", .disabled⟩,
  ⟨0x81, "OP_RIGHT", .disabled⟩,
  ⟨0x82, "OP_SIZE", .stack .size⟩,
  ⟨0x83, "OP_INVERT", .disabled⟩,
  ⟨0x84, "OP_AND", .disabled⟩,
  ⟨0x85, "OP_OR", .disabled⟩,
  ⟨0x86, "OP_XOR", .disabled⟩,
  ⟨0x87, "OP_EQUAL", .test .equal⟩,
  ⟨0x88, "OP_EQUALVERIFY", .testVerify .equal⟩,
  ⟨0x89, "OP_RESERVED1", .reserved⟩,
  ⟨0x8a, "OP_RESERVED2", .reserved⟩,
  ⟨0x8b, "OP_1ADD", .unary .add1⟩,
  ⟨0x8c, "OP_1SUB", .unary .sub1⟩,
  ⟨0x8d, "OP_2MUL", .disabled⟩,
  ⟨0x8e, "OP_2DIV", .disabled⟩,
  ⟨0x8f, "OP_NEGATE", .unary .negate⟩,
  ⟨0x90, "OP_ABS", .unary .abs⟩,
  ⟨0x91, "OP_NOT", .unary .not⟩,
  ⟨0x92, "OP_0NOTEQUAL", .unary .notZero⟩,
  ⟨0x93, "OP_ADD", .binary .add⟩,
  ⟨0x94, "OP_SUB", .binary .sub⟩,
  ⟨0x95, "OP_MUL", .disabled⟩,
  ⟨0x96, "OP_DIV", .disabled⟩,
  ⟨0x97, "OP_MOD", .disabled⟩,
  ⟨0x98, "OP_LSHIFT", .disabled⟩,
  ⟨0x99, "OP_RSHIFT", .disabled⟩,
  ⟨0x9a, "OP_BOOLAND", .binary .boolAnd⟩,
  ⟨0x9b, "OP_BOOLOR", .binary .boolOr⟩,
  ⟨0x9c, "OP_NUMEQUAL", .test .numEqual⟩,
  ⟨0x9d, "OP_NUMEQUALVERIFY", .testVerify .numEqual⟩,
  ⟨0x9e, "OP_NUMNOTEQUAL", .binary .numNotEqual⟩,
  ⟨0x9f, "OP_LESSTHAN", .binary .lessThan⟩,
  ⟨0xa0, "OP_GREATERTHAN", .binary .greaterThan⟩,
  ⟨0xa1, "OP_LESSTHANOREQUAL", .binary .lessThanOrEqual⟩,
  ⟨0xa2, "OP_GREATERTHANOREQUAL", .binary .greaterThanOrEqual⟩,
  ⟨0xa3, "OP_MIN", .binary .min⟩,
  ⟨0xa4, "OP_MAX", .binary .max⟩,
  ⟨0xa5, "OP_WITHIN", .within⟩,
  ⟨0xa6, "OP_RIPEMD160", .digest .ripemd160⟩,
  ⟨0xa7, "OP_SHA1", .digest .sha1⟩,
  ⟨0xa8, "OP_SHA256", .digest .sha256⟩,
  ⟨0xa9, "OP_HASH160", .digest .hash160⟩,
  ⟨0xaa, "OP_HASH256", .digest .hash256⟩,
  ⟨0xab, "OP_CODESEPARATOR", .codeSeparator⟩,
  ⟨0xac, "OP_CHECKSIG", .test .checkSig⟩,
  ⟨0xad, "OP_CHECKSIGVERIFY", .testVerify .checkSig⟩,
  ⟨0xae, "OP_CHECKMULTISIG", .test .checkMultiSig⟩,
  ⟨0xaf, "OP_CHECKMULTISIGVERIFY", .testVerify .checkMultiSig⟩,
  ⟨0xb0, "OP_NOP1", .nop⟩,
  ⟨0xb1, "OP_NOP2", .nop⟩,
  ⟨0xb2, "OP_NOP3", .nop⟩,
  ⟨0xb3, "OP_NOP4", .nop⟩,
  ⟨0xb4, "OP_NOP5", .nop⟩,
  ⟨0xb5, "OP_NOP6", .nop⟩,
  ⟨0xb6, "OP_NOP7", .nop⟩,
  ⟨0xb7, "OP_NOP8", .nop⟩,
  ⟨0xb8, "OP_NOP9", .nop⟩,
  ⟨0xb9, "OP_NOP10", .nop⟩,
  ⟨0xf9, "OP_SMALLDATA", .reserved⟩,
  ⟨0xfd, "OP_PUBKEYHASH", .reserved⟩,
  ⟨0xfe, "OP_PUBKEY", .reserved⟩,
  ⟨0xff, "OP_INVALIDOPCODE", .reserved⟩]

/-- Second spellings of a mnemonic, which are read and never printed. -/
def aliases : List (String × Opcode) :=
  [("OP_FALSE", 0x00), ("OP_TRUE", 0x51)]

/-! ## Questions to the table -/

/-- The row of an opcode that has a mnemonic. -/
def row? (code : Opcode) : Option Row :=
  rows.find? (·.opcode == code)

/-- The mnemonic of an opcode. -/
def name? (code : Opcode) : Option String :=
  (row? code).map Row.name

/-- The opcode of a mnemonic or of a second spelling of one. -/
def ofName? (name : String) : Option Opcode :=
  match rows.find? (·.name == name) with
  | some row => some row.opcode
  | none => aliases.lookup name

/-- Whether the opcode pushes as many bytes as its number says. Only the one
that pushes none has a mnemonic. -/
def isDirectPush (code : Opcode) : Bool :=
  code ≤ 0x4b

/-- What an opcode stands for; `none` for a byte that is no opcode. -/
def operation? (code : Opcode) : Option Operation :=
  if isDirectPush code then some .pushBytes else (row? code).map Row.operation

/-- Whether the byte may appear as an instruction. -/
def isKnown (code : Opcode) : Bool :=
  (operation? code).isSome

/-- Whether the opcode fails a script wherever it stands. -/
def isDisabled (code : Opcode) : Bool :=
  operation? code == some .disabled

/-- Whether the opcode steers execution. -/
def isConditional (code : Opcode) : Bool :=
  match operation? code with
  | some (.conditional _) => true
  | _ => false

/-! ## Single opcodes -/

/-- The opcode `OP_RESERVED`, the only one up to `OP_16` that pushes nothing. -/
def reserved : Opcode := 0x50

/-- The opcode `OP_16`. It is the last one that pushes. -/
def lastPush : Opcode := 0x60

/-- The opcode `OP_CODESEPARATOR`. -/
def codeSeparator : Opcode := 0xab

/-- Whether the opcode takes from the budget of operations: all behind the ones
that push do, whether or not they are executed. -/
def isCounted (code : Opcode) : Bool :=
  lastPush < code

end Opcode

end LegacyScript
