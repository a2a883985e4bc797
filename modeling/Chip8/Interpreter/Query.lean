import Chip8.Interpreter.Basic

/-!
# Questions to the interpreter

What a host may ask an interpreter, as data, and the answers.  A question may be refused, and it changes
nothing.
-/

namespace Chip8

/-- A question that a host may ask. -/
inductive Query
  | register (index : Int)
  | registers
  /-- The program counter. -/
  | counter
  /-- The index register. -/
  | index
  /-- The number of entries of the stack. -/
  | depth
  | delay
  | sound
  /-- Whether a tone sounds. -/
  | soundOn
  /-- The value of a slot of the stack, in use or not. -/
  | stackSlot (index : Int)
  /-- The entries of the stack, oldest first. -/
  | stack
  | frame
  | memory (address count : Int)
  /-- The word under the program counter. -/
  | word
  | mnemonic (address : Int)
  | listing
  | dialect
  /-- The line that describes the machine, or with `verbose` the whole report. -/
  | report (mnemonic : String) (verbose : Bool)
deriving DecidableEq, Inhabited

/-- What a question is answered with. -/
inductive Answer
  | number (n : Int)
  | numbers (l : List Int)
  | bytes (block : List UInt8)
  | truth (on : Bool)
  | word (c : Opcode)
  | text (s : String)
  | picture (f : Frame)
  | switches (positions : List (Switch × Bool))
deriving DecidableEq, Inhabited

/-- Answers a question. -/
def Interpreter.answer {ρ : Type} (s : Interpreter ρ) : Query → Except Fault Answer
  | .register index => do return .number (← s.register index).toNat
  | .registers => .ok (.bytes s.machine.registers.v.toList)
  | .counter => .ok (.number s.machine.registers.pc)
  | .index => .ok (.number s.machine.registers.i)
  | .depth => .ok (.number s.machine.stack.depth)
  | .delay => .ok (.number s.machine.registers.dt)
  | .sound => .ok (.number s.machine.registers.st)
  | .soundOn => .ok (.truth s.soundOn)
  | .stackSlot index => do return .number (← s.machine.stack.slot index)
  | .stack => .ok (.numbers s.machine.stack.entries)
  | .frame => .ok (.picture s.machine.frame)
  | .memory address count => do return .bytes (← s.machine.memory.readBlock address count)
  | .word => do return .word (← s.fetch)
  | .mnemonic address => do return .text (← s.disassemble address)
  | .listing => do return .text (← s.listing)
  | .dialect => .ok (.switches (Switch.all.map fun switch => (switch, s.dialect switch)))
  | .report mnemonic verbose =>
    .ok (.text (if verbose then s.crashReport mnemonic else s.traceLine mnemonic))

end Chip8
