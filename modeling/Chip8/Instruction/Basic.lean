import Chip8.Instruction.Opcode

/-!
# Instructions

The instructions a program is made of, with their operands, and the reading of a word as one of
them.  Reading looks at the top nibble first; four families need a second look, at the low byte
(families 0, E and F) or at the low nibble (family 8).  Words that fall through are no instruction.
-/

namespace Chip8

/-- The operations of family 8, which combine two registers. -/
inductive Alu
  | copy | or | and | xor | add | sub | shiftRight | subFrom | shiftLeft
deriving DecidableEq, Inhabited

/-- An instruction with its operands. -/
inductive Instruction
  /-- Blank the frame (`00E0`). -/
  | clearFrame
  /-- Return from a subroutine (`00EE`). -/
  | ret
  /-- Go to an address (`1nnn`). -/
  | jump (target : Location)
  /-- Call a subroutine (`2nnn`). -/
  | call (target : Location)
  /-- Skip the next instruction if a register holds a constant (`3xkk`). -/
  | skipIfByte (x : Register) (value : UInt8)
  /-- Skip the next instruction unless a register holds a constant (`4xkk`). -/
  | skipUnlessByte (x : Register) (value : UInt8)
  /-- Skip the next instruction if two registers agree (`5xy0`). -/
  | skipIfSame (x y : Register)
  /-- Put a constant into a register (`6xkk`). -/
  | setByte (x : Register) (value : UInt8)
  /-- Add a constant to a register, without a flag (`7xkk`). -/
  | addByte (x : Register) (value : UInt8)
  /-- Combine two registers (`8xy0` to `8xyE`). -/
  | alu (op : Alu) (x y : Register)
  /-- Skip the next instruction unless two registers agree (`9xy0`). -/
  | skipUnlessSame (x y : Register)
  /-- Point the index register at an address (`Annn`). -/
  | setIndex (target : Location)
  /-- Go to an address plus a register (`Bnnn`). -/
  | jumpPlus (target : Location)
  /-- Put a random number under a mask into a register (`Cxkk`). -/
  | random (x : Register) (mask : UInt8)
  /-- Draw a sprite of some rows (`Dxyn`). -/
  | draw (x y : Register) (rows : Fin 16)
  /-- Skip the next instruction if a key is down (`Ex9E`). -/
  | skipIfKey (x : Register)
  /-- Skip the next instruction unless a key is down (`ExA1`). -/
  | skipUnlessKey (x : Register)
  /-- Read the delay timer (`Fx07`). -/
  | getDelay (x : Register)
  /-- Wait for a key (`Fx0A`). -/
  | awaitKey (x : Register)
  /-- Set the delay timer (`Fx15`). -/
  | setDelay (x : Register)
  /-- Set the sound timer (`Fx18`). -/
  | setSound (x : Register)
  /-- Add a register to the index register (`Fx1E`). -/
  | addIndex (x : Register)
  /-- Point the index register at the glyph of a digit (`Fx29`). -/
  | glyph (x : Register)
  /-- Store the three decimal digits of a register (`Fx33`). -/
  | storeDigits (x : Register)
  /-- Store the registers up to one of them (`Fx55`). -/
  | store (x : Register)
  /-- Load the registers up to one of them (`Fx65`). -/
  | load (x : Register)
deriving DecidableEq, Inhabited

/-- The operation of family 8 that a low nibble selects. -/
def Alu.ofNibble? : Nat → Option Alu
  | 0x0 => some .copy
  | 0x1 => some .or
  | 0x2 => some .and
  | 0x3 => some .xor
  | 0x4 => some .add
  | 0x5 => some .sub
  | 0x6 => some .shiftRight
  | 0x7 => some .subFrom
  | 0xE => some .shiftLeft
  | _ => none

namespace Instruction

/-- The instructions of family 0, by low byte. -/
def ofSystemByte? : Nat → Option Instruction
  | 0xE0 => some .clearFrame
  | 0xEE => some .ret
  | _ => none

/-- The instructions of family E, by low byte. -/
def ofKeyByte? (x : Register) : Nat → Option Instruction
  | 0x9E => some (.skipIfKey x)
  | 0xA1 => some (.skipUnlessKey x)
  | _ => none

/-- The instructions of family F, by low byte. -/
def ofMiscByte? (x : Register) : Nat → Option Instruction
  | 0x07 => some (.getDelay x)
  | 0x0A => some (.awaitKey x)
  | 0x15 => some (.setDelay x)
  | 0x18 => some (.setSound x)
  | 0x1E => some (.addIndex x)
  | 0x29 => some (.glyph x)
  | 0x33 => some (.storeDigits x)
  | 0x55 => some (.store x)
  | 0x65 => some (.load x)
  | _ => none

/-- The instruction that a word stands for, if it stands for one. -/
def ofOpcode? (c : Opcode) : Option Instruction :=
  match c.family.val with
  | 0x0 => ofSystemByte? c.byte.toNat
  | 0x1 => some (.jump c.address)
  | 0x2 => some (.call c.address)
  | 0x3 => some (.skipIfByte c.x c.byte)
  | 0x4 => some (.skipUnlessByte c.x c.byte)
  | 0x5 => some (.skipIfSame c.x c.y)
  | 0x6 => some (.setByte c.x c.byte)
  | 0x7 => some (.addByte c.x c.byte)
  | 0x8 => (Alu.ofNibble? c.nibble.val).map (.alu · c.x c.y)
  | 0x9 => some (.skipUnlessSame c.x c.y)
  | 0xA => some (.setIndex c.address)
  | 0xB => some (.jumpPlus c.address)
  | 0xC => some (.random c.x c.byte)
  | 0xD => some (.draw c.x c.y c.nibble)
  | 0xE => ofKeyByte? c.x c.byte.toNat
  | _ => ofMiscByte? c.x c.byte.toNat

end Instruction

end Chip8
