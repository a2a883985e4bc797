import Chip8.Machine.Key
import Chip8.Text.Integer
import Chip8.Text.Lowercase

/-!
# Keymaps

A keymap names sixteen host keys by their codes, the one for key 0 first.  As text it is sixteen
integers with commas between them.  Hosts that deliver characters compare them in lower case, so
their keymaps are lowered as well.
-/

namespace Chip8

open Text

/-- The codes of host keys with the keys that they stand for. -/
abbrev Keymap := List (Int × Key)

namespace Keymap

/-- The keymap that is used unless another is given. -/
def standardText : String := "120,49,50,51,113,119,101,97,115,100,122,99,52,114,102,118"

/-- Why a text is no keymap. -/
inductive Error
  | wrongCount (count : Nat)
  | notIntegers
  | repeated
  /-- An entry has no lower case character. -/
  | code (fault : CodeFault)
deriving DecidableEq, Inhabited

/-- The words in which an error is reported, empty for codes without a lower case. -/
def Error.message : Error → String
  | wrongCount count =>
    "Keymap defines " ++ toString count
      ++ " keys, but 16 are required.  Use commas to split numbers"
  | notIntegers => "Keymap entries must all be decimal integers"
  | repeated => "The same host key is mapped more than once"
  | code _ => ""

/-- The codes in lower case; the first that has none is reported. -/
def lowerCodes (codes : List Int) : Except Error (List Int) :=
  codes.mapM fun c => (lowerCode c).mapError Error.code

/-- The keymap of a list of codes. -/
def ofCodes (codes : List Int) : Keymap := codes.zip Key.all

/-- The integers of a text with commas between its entries. -/
def codes? (text : String) : Except Error (List Int) :=
  let entries := text.toList.splitOn ','
  if entries.length ≠ 16 then .error (.wrongCount entries.length)
  else match entries.mapM (integer? .ten) with
    | none => .error .notIntegers
    | some codes => .ok codes

/-- Reads a keymap, in lower case if `lower`. -/
def parse (text : String) (lower : Bool) : Except Error Keymap := do
  let codes ← codes? text
  let codes ← if lower then lowerCodes codes else pure codes
  if codes.Nodup then return ofCodes codes else throw .repeated

/-- The key that a host key stands for. -/
def key? (m : Keymap) (code : Int) : Option Key := m.lookup code

end Keymap

end Chip8
