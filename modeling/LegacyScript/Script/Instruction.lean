import LegacyScript.Bytes
import LegacyScript.Opcode

/-!
# Scripts and their instructions

A Bitcoin script is any byte string. Decoding walks over it with a `Cursor` and cuts it
into items, each an opcode with the bytes that belong to it. An item is an
instruction, or, at most once and then last, the place where the script cannot
be decoded any further.

* `Cursor.next` reads one item, `Cursor.items` all that are left;
* `Cursor.nextIndexed` reads one instruction with its offset;
* `Cursor.calls` are the answers to any number of such reads in a row;
* `Script.items` are the items of a script;
* `Script.isPushOnly` says whether there is nothing but pushes.
-/

namespace LegacyScript

/-- A script is any byte string; whether it is well formed shows when it is
decoded or run. -/
abbrev Script := Bytes

namespace Script

/-- The size of the largest script that is run. -/
def maxSize : Nat := 10000

/-- The size of the largest element that a script may push. -/
def maxElementSize : Nat := 520

end Script

/-- One instruction. -/
inductive Instruction
  /-- Pushes bytes of the script itself. -/
  | push (data : Bytes)
  /-- Any other opcode, those that push a small number included. -/
  | op (code : Opcode)
  deriving DecidableEq, Repr

/-- Why a script cannot be decoded any further. -/
inductive DecodeError
  /-- The length of a push runs past the end of the script. -/
  | earlyEnd
  /-- The bytes of a push run past the end of the script. -/
  | pushPastEnd
  deriving DecidableEq, Repr

/-- The text of a decoding error. -/
def DecodeError.message : DecodeError → String
  | .earlyEnd => "push length prefix runs past the end of the script"
  | .pushPastEnd => "push payload runs past the end of the script"

/-! ## Items -/

/-- One piece of a decoded script: an opcode with the bytes that belong to it,
and what they mean. -/
structure Item where
  /-- The offset of the opcode in the script. -/
  start : Nat
  opcode : Opcode
  /-- The bytes after the opcode that were read: length and data of a push. -/
  operand : Bytes
  content : Except DecodeError Instruction

namespace Item

/-- The bytes of the script that the item covers. -/
def raw (item : Item) : Bytes :=
  item.opcode :: item.operand

/-- The offset just behind the item. -/
def stop (item : Item) : Nat :=
  item.start + item.raw.length

/-- Whether an item pushes and does nothing else. The opcodes that push a small
number count as pushes; the reserved one among them does not. -/
def isPush (item : Item) : Bool :=
  match item.content with
  | .ok (.push _) => true
  | .ok (.op code) => code ≤ Opcode.lastPush && code ≠ Opcode.reserved
  | .error _ => false

end Item

/-! ## Reading one item -/

/-- How an opcode announces the data that it pushes. -/
inductive PushForm
  /-- As many bytes as the opcode says. -/
  | direct (size : Nat)
  /-- As many bytes as the next `width` bytes say. -/
  | counted (width : Nat)
  deriving DecidableEq, Repr

/-- The form of a push; `none` for an opcode that pushes no bytes of the script. -/
def PushForm.ofOpcode? (code : Opcode) : Option PushForm :=
  if code ≤ 0x4b then some (.direct code.toNat)
  else if code = 0x4c then some (.counted 1)
  else if code = 0x4d then some (.counted 2)
  else if code = 0x4e then some (.counted 4)
  else none

namespace Instruction

/-- What is read behind an opcode: the meaning, the bytes that belong to it, and
the bytes after those. -/
structure Reading where
  content : Except DecodeError Instruction
  operand : Bytes
  rest : Bytes

/-- Reads `size` bytes of data behind the bytes that gave the size. -/
def readData (width : Bytes) (size : Nat) (bs : Bytes) : Reading :=
  match Bytes.split? size bs with
  -- The data is not taken, and the bytes of its length are.
  | none => ⟨.error .pushPastEnd, width, bs⟩
  | some (data, rest) => ⟨.ok (.push data), width ++ data, rest⟩

/-- Reads the bytes that belong to an opcode. Where the script ends too early,
the bytes that were read up to there belong to it. -/
def read (code : Opcode) (bs : Bytes) : Reading :=
  match PushForm.ofOpcode? code with
  | none => ⟨.ok (.op code), [], bs⟩
  | some (.direct size) => readData [] size bs
  | some (.counted width) =>
    match Bytes.split? width bs with
    -- Not even a part of the length is taken when it is cut off.
    | none => ⟨.error .earlyEnd, [], bs⟩
    | some (size, rest) => readData size (Bytes.toNatLE size) rest

theorem readData_append (width : Bytes) (size : Nat) (bs : Bytes) :
    (readData width size bs).operand ++ (readData width size bs).rest = width ++ bs := by
  unfold readData
  split
  · rfl
  · next data rest h =>
    obtain ⟨rfl, -⟩ := Bytes.split?_eq_some_iff.1 h
    simp

/-- Reading loses nothing: operand and rest make up what was there. -/
theorem read_append (code : Opcode) (bs : Bytes) :
    (read code bs).operand ++ (read code bs).rest = bs := by
  unfold read
  split
  · rfl
  · exact readData_append [] _ bs
  · split
    · rfl
    · next size rest h =>
      obtain ⟨rfl, -⟩ := Bytes.split?_eq_some_iff.1 h
      exact readData_append size _ rest

theorem length_read_rest_le (code : Opcode) (bs : Bytes) :
    (read code bs).rest.length ≤ bs.length := by
  have h := congrArg List.length (read_append code bs)
  simp only [List.length_append] at h
  omega

end Instruction

/-! ## Walking over a script -/

/-- A place in a script that is being decoded. -/
structure Cursor where
  /-- The offset of the next item. -/
  position : Nat
  /-- The bytes not read so far. -/
  rest : Bytes
  /-- Whether decoding has failed. A failed cursor reads nothing more. -/
  failed : Bool
  deriving DecidableEq

namespace Cursor

/-- The beginning of a script. -/
def start (script : Script) : Cursor := ⟨0, script, false⟩

/-- Reads one item, unless the script is over or cannot be decoded any further. -/
def next (c : Cursor) : Option (Item × Cursor) :=
  if c.failed then none
  else match c.rest with
    | [] => none
    | code :: bs =>
      let reading := Instruction.read code bs
      let item : Item := ⟨c.position, code, reading.operand, reading.content⟩
      some (item, ⟨item.stop, reading.rest, !reading.content.isOk⟩)

/-- Reading an item uses up at least its opcode. -/
theorem length_rest_lt_of_next {c after : Cursor} {item : Item}
    (h : c.next = some (item, after)) : after.rest.length < c.rest.length := by
  unfold next at h
  split at h
  · cases h
  · split at h
    · cases h
    · next code bs hrest =>
      cases h
      have := Instruction.length_read_rest_le code bs
      simp only [hrest, List.length_cons]
      omega

/-- All items from here on. -/
def items (c : Cursor) : List Item :=
  match _h : c.next with
  | none => []
  | some (item, after) => item :: items after
termination_by c.rest.length
decreasing_by exact length_rest_lt_of_next _h

theorem items_of_next_eq_none {c : Cursor} (h : c.next = none) : c.items = [] := by
  unfold items
  split
  · rfl
  · simp_all

theorem items_of_next_eq_some {c after : Cursor} {item : Item} (h : c.next = some (item, after)) :
    c.items = item :: after.items := by
  rw [items]
  split
  · simp_all
  · next h' =>
    obtain ⟨rfl, rfl⟩ := Prod.mk.inj (Option.some.inj (h.symm.trans h'))
    rfl

/-- Reads one instruction, with the offset at which it begins. -/
def nextIndexed (c : Cursor) : Option (Except DecodeError (Nat × Instruction) × Cursor) :=
  c.next.map fun (item, after) => (item.content.map (c.position, ·), after)

/-- One call of `read`: what it answers, and the place to which it leads. Where nothing is
read the place stays. -/
def call {α : Type} (read : Cursor → Option (α × Cursor)) (c : Cursor) : Option α × Cursor :=
  match read c with
  | none => (none, c)
  | some (answer, after) => (some answer, after)

/-- So many calls of `read` in a row: each answer, with the offset to which it leads. -/
def calls {α : Type} (read : Cursor → Option (α × Cursor)) : Nat → Cursor → List (Option α × Nat)
  | 0, _ => []
  | n + 1, c =>
    let (answer, after) := call read c
    (answer, after.position) :: calls read n after

/-- A cursor that reads nothing stays where it is: it has failed, or nothing is
left. -/
theorem next_eq_none_iff {c : Cursor} : c.next = none ↔ c.failed = true ∨ c.rest = [] := by
  unfold next
  by_cases hf : c.failed
  · simp [hf]
  · cases hr : c.rest <;> simp [hf]

end Cursor

namespace Script

/-- The items of a script, in order. -/
def items (script : Script) : List Item :=
  (Cursor.start script).items

/-- Whether a script can be decoded and holds nothing but pushes. -/
def isPushOnly (script : Script) : Bool :=
  script.items.all Item.isPush

end Script

end LegacyScript
