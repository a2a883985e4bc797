import Chip8.Machine.CallStack
import Chip8.Machine.Frame
import Chip8.Machine.Keypad
import Chip8.Random.Source

/-!
# The machine

The state that instructions act on.  Registers `V0` to `VF` are bytes; the program counter, the index
register and the two timers are integers, which instructions keep small.
-/

namespace Chip8

/-- The address where programs start. -/
def programStart : Nat := 0x200

/-- The registers. -/
structure Registers where
  v : Vector UInt8 16
  /-- The program counter. -/
  pc : Int
  /-- The index register. -/
  i : Int
  /-- The delay timer. -/
  dt : Int
  /-- The sound timer. -/
  st : Int
deriving DecidableEq, Inhabited

/-- The registers at the start of a program. -/
def Registers.initial : Registers := ⟨Vector.replicate 16 0, programStart, 0, 0, 0⟩

/-- The parts of the machine, with a source of random numbers. -/
structure Machine (ρ : Type) where
  memory : Memory
  registers : Registers
  stack : CallStack
  frame : Frame
  keypad : Keypad
  numbers : ρ
deriving Inhabited

/-- A computation on the machine that may stop with a fault, leaving the machine as it is then. -/
abbrev Action (ρ : Type) := EStateM Fault (Machine ρ)

namespace Action

variable {ρ : Type}

/-- The registers. -/
def registers : Action ρ Registers := do return (← get).registers

/-- Changes the registers. -/
def onRegisters (f : Registers → Registers) : Action ρ Unit :=
  modify fun m => { m with registers := f m.registers }

/-- The value of a byte register. -/
def v (x : Register) : Action ρ UInt8 := do return (← registers).v.get x

/-- Sets a byte register. -/
def setV (x : Register) (b : UInt8) : Action ρ Unit :=
  onRegisters fun r => { r with v := r.v.set x.val b x.lt }

/-- Sets the flag register `VF` to 1 or 0. -/
def setFlag (on : Bool) : Action ρ Unit := setV .flag (if on then 1 else 0)

/-- Sets the program counter. -/
def setPc (pc : Int) : Action ρ Unit := onRegisters fun r => { r with pc := pc }

/-- Sets the index register. -/
def setI (i : Int) : Action ρ Unit := onRegisters fun r => { r with i := i }

/-- Moves the program counter past the next instruction if `condition` holds. -/
def skipIf (condition : Bool) : Action ρ Unit :=
  onRegisters fun r => if condition then { r with pc := r.pc + 2 } else r

/-- The value of an attempt that leaves the machine alone. -/
def attempt {α : Type} (result : Except Fault α) : Action ρ α :=
  match result with
  | .ok a => pure a
  | .error fault => throw fault

/-- Runs a computation on the frame. -/
def onFrame {α : Type} (act : EStateM Fault Frame α) : Action ρ α := fun m =>
  match act m.frame with
  | .ok a frame => .ok a { m with frame }
  | .error fault frame => .error fault { m with frame }

/-- Draws a number from the source. -/
def drawNumber [NumberSource ρ] : Action ρ Int := fun m =>
  .ok (NumberSource.draw m.numbers).1 { m with numbers := (NumberSource.draw m.numbers).2 }

end Action

/-- A machine of the given sizes, which are tried in this order. -/
def Machine.ofSizes {ρ : Type} (memory stack width height : Int) (numbers : ρ) :
    Except Fault (Machine ρ) := do
  return {
    memory := ← Memory.ofSize memory
    registers := .initial
    stack := ← CallStack.ofSize stack
    frame := ← Frame.ofSize width height
    keypad := .allUp
    numbers }

end Chip8
