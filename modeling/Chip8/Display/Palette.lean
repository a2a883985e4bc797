import Chip8.Text.Hex
import Chip8.Text.Integer

/-!
# Palettes

The colours of unlit and lit cells.  As text a palette is one or two entries of six characters with
a comma between them; an entry is read as an integer in base sixteen.
-/

namespace Chip8

open Text

/-- A colour as three bytes. -/
structure Colour where
  red : UInt8
  green : UInt8
  blue : UInt8
deriving DecidableEq, Inhabited

namespace Colour

/-- The colour with the low 24 bits of a number. -/
def ofNat (n : Nat) : Colour :=
  ⟨UInt8.ofNat (n / 65536), UInt8.ofNat (n / 256), UInt8.ofNat n⟩

/-- The bytes of a colour, red first. -/
def bytes (c : Colour) : List UInt8 := [c.red, c.green, c.blue]

end Colour

/-- The colours of the cells. -/
structure Palette where
  unlit : Colour
  lit : Colour
deriving DecidableEq, Inhabited

namespace Palette

/-- The colours that are used unless others are given. -/
def standard : Palette := ⟨.ofNat 0x222222, .ofNat 0xDDDDDD⟩

/-- Why a text is no palette. -/
inductive Error
  | tooMany
  | wrongLength (entry : String)
  | notHex (entry : String)
  | belowZero
deriving DecidableEq, Inhabited

/-- The words in which an error is reported, empty for an entry below zero. -/
def Error.message : Error → String
  | tooMany => "Only 2 palette colours can be defined."
  | wrongLength entry => "Palette colour '" ++ entry ++ "' is not 6 hex digits long."
  | notHex entry => "Palette colour '" ++ entry ++ "' is not valid hex."
  | belowZero => ""

/-- The integer of an entry. -/
def entry (cs : List Char) : Except Error Int :=
  if cs.length ≠ 6 then .error (.wrongLength (String.ofList cs))
  else match integer? .sixteen cs with
    | none => .error (.notHex (String.ofList cs))
    | some n => .ok n

/-- The colour of an integer. -/
def colour (n : Int) : Except Error Colour :=
  if n < 0 then .error .belowZero else .ok (.ofNat n.toNat)

/-- Reads a palette; an entry that is missing keeps its standard colour.  All entries are read before
any becomes a colour. -/
def parse (text : String) : Except Error Palette :=
  match text.toList.splitOn ',' with
  | [unlit] => do
    let unlit ← entry unlit
    return ⟨← colour unlit, standard.lit⟩
  | [unlit, lit] => do
    let unlit ← entry unlit
    let lit ← entry lit
    return ⟨← colour unlit, ← colour lit⟩
  | _ => .error .tooMany

end Palette

end Chip8
