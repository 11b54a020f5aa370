import LegacyScript.Script.Push
import LegacyScript.Text.Blank
import LegacyScript.Text.Hex

/-!
# Scripts as text

A script is written as words with a space between them: an opcode by its
mnemonic, pushed bytes in hexadecimal, an empty push as `OP_0`. It is read from
words with any blanks between them; a word in hexadecimal becomes the shortest
push of its bytes.
-/

namespace LegacyScript

/-! ## Writing -/

/-- The word for one item. -/
def Item.word (item : Item) : String :=
  match item.content with
  | .ok (.push []) => "OP_0"
  | .ok (.push data) => Text.Hex.encode data
  | .ok (.op code) => code.name?.getD "OP_UNKNOWN"
  | .error _ => "<push past end>"

namespace Script

/-- The text of a script. -/
def toText (script : Script) : String :=
  " ".intercalate (script.items.map Item.word)

/-! ## Reading -/

/-- Why a text is no script. -/
inductive TextError
  /-- A word is no mnemonic and no bytes in hexadecimal. -/
  | badToken (token : String)
  | push (cause : Push.TooLarge)
  deriving DecidableEq, Repr

/-- The text of the error. -/
def TextError.message : TextError → String
  | .badToken token => "token `" ++ token ++ "` is neither an opcode nor hex data"
  | .push cause => cause.message

/-- The bytes that a word stands for. -/
def ofWord (word : String) : Except TextError Bytes :=
  match Opcode.ofName? word with
  -- No mnemonic is hexadecimal, so the order of the two readings does not matter.
  | some code => .ok [code]
  | none =>
    match Text.Hex.decode? word.toList with
    | none => .error (.badToken word)
    | some data => (Push.encode? data).mapError .push

/-- The script of a text; the first word that stands for nothing is the error. -/
def ofText (text : String) : Except TextError Script :=
  ((Text.words text).mapM ofWord).map List.flatten

end Script

end LegacyScript
