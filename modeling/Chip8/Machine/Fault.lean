import Chip8.Identity
import Chip8.Text.Hex
import Chip8.Instruction.Opcode

/-!
# Faults

The causes for which an operation on the machine is refused, and the words in which a cause is
reported.  Causes that are plain misuse of a value (`notAByte`, `negativeSize`, `sizeTooWide`,
`zeroDivisor`) have no wording of their own.
-/

namespace Chip8

open Text

/-- The largest program, which fills memory from the program start to the end. -/
def maxRomSize : Nat := 3584

/-- Why an operation was refused. -/
inductive Fault
  /-- Memory was asked for from `first` to `last`, but ends at `top`. -/
  | outOfRange (first last top : Int)
  /-- A value outside 0 to 255 was to be stored in a byte. -/
  | notAByte
  | negativeSize
  /-- Something was asked for whose size does not fit a machine word of 64 bits. -/
  | sizeTooWide
  /-- A position was to be taken modulo an empty side. -/
  | zeroDivisor
  | stackOverflow
  | stackUnderflow
  | noSuchKey (key : Int)
  | noSuchRegister (index : Int)
  | noSuchEntry (index : Int)
  | romTooLarge (size : Nat)
  /-- A word that is no instruction was fetched at `address`; `report` describes the machine. -/
  | illegal (word : Opcode) (address : Int) (report : String)
deriving DecidableEq, Inhabited

/-- The number that the size of something is, if it fits a machine word. -/
def wordSize? (n : Int) : Except Fault Int :=
  if n < -9223372036854775808 ∨ 9223372036854775808 ≤ n then .error .sizeTooWide else .ok n

theorem wordSize?_natCast (n : Nat) :
    wordSize? n = if n < 9223372036854775808 then .ok (n : Int) else .error .sizeTooWide := by
  rw [wordSize?]
  by_cases hn : n < 9223372036854775808
  · rw [if_pos hn, if_neg (by omega)]
  · rw [if_neg hn, if_pos (by omega)]

/-- The words in which a fault is reported, empty for misuse of a value. -/
def Fault.message : Fault → String
  | outOfRange first last top =>
    "Memory access out of range: 0x" ++ hex 4 first ++ "-0x" ++ hex 4 last ++ " (top 0x" ++ hex 3 top
      ++ ")"
  | notAByte | negativeSize | sizeTooWide | zeroDivisor => ""
  | stackOverflow => "Stack overflow"
  | stackUnderflow => "Stack underflow"
  | noSuchKey key => "Invalid key: " ++ toString key
  | noSuchRegister index => "Invalid register index: " ++ toString index
  | noSuchEntry index => "Invalid stack index: " ++ toString index
  | romTooLarge size =>
    "ROM exceeds maximum size (current size: " ++ toString size ++ " bytes, maximum size: "
      ++ toString maxRomSize ++ " bytes)"
  | illegal word address report =>
    "Emulation halted.\n\n" ++ introduction ++ "Debug info:\n" ++ report ++ "\n\nOpcode 0x"
      ++ hex 4 word.full ++ " at address 0x" ++ hex 3 address ++ " is not a valid instruction."

end Chip8
