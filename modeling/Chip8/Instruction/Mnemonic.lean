import Chip8.Text.Hex
import Chip8.Instruction.Opcode

/-!
# Mnemonics

The text of a word in a listing: an operation name and its operands, registers as `V` and a
hexadecimal digit, constants in hexadecimal.  A text is a template with fields of the word filled in.
The top nibble has a template of its own, or names the field that selects one.  A word without a
template is listed as `???`.
-/

namespace Chip8

open Text

/-- A field of a word. -/
inductive Field
  | x | y | nibble | byte | address
deriving DecidableEq, Inhabited

namespace Field

/-- The value of a field in a word. -/
def value (c : Opcode) : Field → Nat
  | x => c.x.val
  | y => c.y.val
  | nibble => c.nibble.val
  | byte => c.byte.toNat
  | address => c.address.val

/-- The number of hexadecimal digits in which a field is shown. -/
def digits : Field → Nat
  | x | y | nibble => 1
  | byte => 2
  | address => 3

end Field

/-- A part of a template: a text as it stands, or a field of the word. -/
inductive Piece
  | text (s : String)
  | field (f : Field)
deriving DecidableEq, Inhabited

/-- A text with fields of a word to be filled in. -/
abbrev Template := List Piece

namespace Template

/-- The text of a template for a word. -/
def fill (c : Opcode) : Template → String
  | [] => ""
  | .text s :: t => s ++ fill c t
  | .field f :: t => hex f.digits (f.value c) ++ fill c t

/-- The register `Vx`, after an operation name or before it. -/
def vx (front back : String) : Template := [.text (front ++ "V"), .field .x, .text back]

/-- The registers `Vx` and `Vy`. -/
def vxVy (name : String) : Template := [.text (name ++ " V"), .field .x, .text ", V", .field .y]

/-- The register `Vx` and a constant byte. -/
def vxByte (name : String) : Template :=
  [.text (name ++ " V"), .field .x, .text ", 0x", .field .byte]

/-- A constant address. -/
def location (front : String) : Template := [.text (front ++ "0x"), .field .address]

/-- The templates that the top nibble selects. -/
def ofFamily : List (Nat × Template) :=
  [(0x1, location "JP "), (0x2, location "CALL "), (0x3, vxByte "SE"), (0x4, vxByte "SNE"),
    (0x5, vxVy "SE"), (0x6, vxByte "LD"), (0x7, vxByte "ADD"), (0x9, vxVy "SNE"),
    (0xA, location "LD I, "), (0xB, location "JP V0, "), (0xC, vxByte "RND"),
    (0xD, vxVy "DRW" ++ [.text ", 0x", .field .nibble])]

/-- The top nibbles that need a second look: the field that selects a template, and the templates by
its value. -/
def bySelector : List (Nat × Field × List (Nat × Template)) :=
  [(0x0, .byte, [(0xE0, [.text "CLS"]), (0xEE, [.text "RET"])]),
    (0x8, .nibble, [(0x0, vxVy "LD"), (0x1, vxVy "OR"), (0x2, vxVy "AND"), (0x3, vxVy "XOR"),
      (0x4, vxVy "ADD"), (0x5, vxVy "SUB"), (0x6, vxVy "SHR"), (0x7, vxVy "SUBN"),
      (0xE, vxVy "SHL")]),
    (0xE, .byte, [(0x9E, vx "SKP " ""), (0xA1, vx "SKNP " "")]),
    (0xF, .byte, [(0x07, vx "LD " ", DT"), (0x0A, vx "LD " ", K"), (0x15, vx "LD DT, " ""),
      (0x18, vx "LD ST, " ""), (0x1E, vx "ADD I, " ""), (0x29, vx "LD F, " ""),
      (0x33, vx "LD B, " ""), (0x55, vx "LD [I], " ""), (0x65, vx "LD " ", [I]")])]

end Template

namespace Opcode

/-- The template of a word, if it has one. -/
def template? (c : Opcode) : Option Template :=
  match Template.ofFamily.lookup c.family.val with
  | some t => some t
  | none => do
    let (selector, templates) ← Template.bySelector.lookup c.family.val
    templates.lookup (selector.value c)

end Opcode

/-- The text of a word that has no template. -/
def unknownMnemonic : String := "???"

/-- The text of a word in a listing. -/
def Opcode.disassemble (c : Opcode) : String :=
  match c.template? with
  | some t => t.fill c
  | none => unknownMnemonic

end Chip8
