import Chip8.Instruction.Execution
import Chip8.Instruction.Mnemonic

/-!
# The interpreter

A machine of standard size, the dialect in force with the one to return to, and what was fetched
last.  `Interpreter.tick` runs one instruction: it fetches the word under the program counter, moves
the counter behind it, reports the machine if tracing is on, and executes.  A reaction is what an
operation leaves behind, what it printed, and why it failed if it did.
-/

namespace Chip8

open Text

/-- The number of bytes of memory. -/
def memorySize : Nat := 4096

/-- The glyphs of the sixteen hexadecimal digits. -/
def font : List UInt8 :=
  [0xF0, 0x90, 0x90, 0x90, 0xF0, 0x20, 0x60, 0x20, 0x20, 0x70,
   0xF0, 0x10, 0xF0, 0x80, 0xF0, 0xF0, 0x10, 0xF0, 0x10, 0xF0,
   0x90, 0x90, 0xF0, 0x10, 0x10, 0xF0, 0x80, 0xF0, 0x10, 0xF0,
   0xF0, 0x80, 0xF0, 0x90, 0xF0, 0xF0, 0x10, 0x20, 0x40, 0x40,
   0xF0, 0x90, 0xF0, 0x90, 0xF0, 0xF0, 0x90, 0xF0, 0x10, 0xF0,
   0xF0, 0x90, 0xF0, 0x90, 0x90, 0xE0, 0x90, 0xE0, 0x90, 0xE0,
   0xF0, 0x80, 0x80, 0x80, 0xF0, 0xE0, 0x90, 0x90, 0x90, 0xE0,
   0xF0, 0x80, 0xF0, 0x80, 0xF0, 0xF0, 0x80, 0xF0, 0x80, 0x80]

/-- The address after the font. -/
def fontEnd : Nat := 0xA0

/-- An interpreter with everything that its operations depend on. -/
structure Interpreter (ρ : Type) where
  machine : Machine ρ
  /-- The dialect in force. -/
  dialect : Dialect
  /-- The dialect that a reset returns to. -/
  chosen : Dialect
  /-- The word fetched last. -/
  word : Opcode
  /-- The address it was fetched from. -/
  fetchedFrom : Int
  /-- Whether every instruction is reported before it runs. -/
  tracing : Bool
deriving Inhabited

/-- What an operation leaves behind. -/
structure Reaction (ρ : Type) where
  after : Interpreter ρ
  printed : Option String
  fault : Option Fault

namespace Interpreter

variable {ρ : Type}

/-- A new interpreter of a dialect. -/
def new (dialect : Dialect) (tracing : Bool) (numbers : ρ) : Interpreter ρ where
  machine := {
    memory := (Memory.zeros memorySize).setBlock fontStart font
    registers := .initial
    stack := .empty CallStack.standardCapacity
    frame := .standard
    keypad := .allUp
    numbers }
  dialect := dialect
  chosen := dialect
  word := .ofInt 0
  fetchedFrom := programStart
  tracing := tracing

/-- The memory with all bytes outside the font cleared; the font is left as it is. -/
def clearAroundFont (m : Memory) : Memory :=
  (m.setBlock 0 (List.replicate fontStart 0)).setBlock fontEnd
    (List.replicate (memorySize - fontEnd) 0)

/-- The interpreter as at its start, up to the font bytes, the number source and tracing. -/
def reset (s : Interpreter ρ) : Interpreter ρ :=
  { s with
    machine := {
      memory := clearAroundFont s.machine.memory
      registers := .initial
      stack := s.machine.stack.clear
      frame := s.machine.frame.clear
      keypad := .allUp
      numbers := s.machine.numbers }
    dialect := s.chosen
    word := .ofInt 0
    fetchedFrom := programStart }

/-- Puts a program into memory. -/
def loadRom (s : Interpreter ρ) (rom : List UInt8) : Except Fault (Interpreter ρ) :=
  if maxRomSize < rom.length then .error (.romTooLarge rom.length)
  else do
    let memory ← s.machine.memory.writeBlock programStart rom
    return { s with machine := { s.machine with memory } }

/-- The word at an address. -/
def wordAt (s : Interpreter ρ) (address : Int) : Except Fault Opcode := do
  return .ofBytes (← s.machine.memory.readBlock address 2)

/-- The word under the program counter. -/
def fetch (s : Interpreter ρ) : Except Fault Opcode := s.wordAt s.machine.registers.pc

/-- The mnemonic of the word at an address. -/
def disassemble (s : Interpreter ρ) (address : Int) : Except Fault String := do
  return (← s.wordAt address).disassemble

/-- The line of a listing for the word at an address. -/
def listingLine (s : Interpreter ρ) (address : Int) : Except Fault String := do
  return "0x" ++ hex 4 address ++ ": " ++ (← s.disassemble address)

/-- The addresses that a listing shows: every one from the program start that begins a word. -/
def listingAddresses : List Int :=
  (List.range (memorySize - 1 - programStart)).map fun (k : Nat) => (programStart : Int) + k

/-- The lines of a listing of the program area. -/
def listingLines (s : Interpreter ρ) : Except Fault (List String) :=
  listingAddresses.mapM s.listingLine

/-- The listing of the program area, one line for each address since sprites and instructions
mix. -/
def listing (s : Interpreter ρ) : Except Fault String := do
  return "\n".intercalate (← s.listingLines)

/-! ### Reports -/

/-- The sixteen byte registers, highest first, as one hexadecimal number. -/
def registerText (v : Vector UInt8 16) : String :=
  String.join (v.toList.reverse.map fun b => hex 2 b.toNat)

/-- One line describing the machine and the instruction fetched last. -/
def traceLine (s : Interpreter ρ) (mnemonic : String) : String :=
  let r := s.machine.registers
  "V: 0x" ++ registerText r.v ++ " I: 0x" ++ hex 4 r.i ++ " DT: 0x" ++ hex 2 r.dt ++ " ST: 0x"
    ++ hex 2 r.st ++ " PC: 0x" ++ hex 3 s.fetchedFrom ++ " OP: 0x" ++ hex 4 s.word.full ++ " IN: "
    ++ mnemonic

/-- The entries of the stack, oldest first. -/
def stackText (entries : List Int) : String :=
  if entries.isEmpty then " (Empty)" else String.join (entries.map fun e => " 0x" ++ hex 3 e)

/-- The trace line followed by the stack. -/
def crashReport (s : Interpreter ρ) (mnemonic : String) : String :=
  s.traceLine mnemonic ++ "\nSP: " ++ toString s.machine.stack.depth ++ "\nStack:"
    ++ stackText s.machine.stack.entries

/-! ### Running -/

/-- The fault of fetching a word that is no instruction. -/
def illegalFault (s : Interpreter ρ) : Fault :=
  .illegal s.word s.fetchedFrom (s.crashReport unknownMnemonic)

/-- Runs the word fetched last. -/
def dispatch [NumberSource ρ] (s : Interpreter ρ) : Interpreter ρ × Option Fault :=
  match Instruction.ofOpcode? s.word with
  | none => (s, some s.illegalFault)
  | some i =>
    match (i.execute s.dialect) s.machine with
    | .ok _ machine => ({ s with machine }, none)
    | .error fault machine => ({ s with machine }, some fault)

/-- The interpreter after the fetch of a word. -/
def fetched (s : Interpreter ρ) (word : Opcode) : Interpreter ρ :=
  let r := s.machine.registers
  { s with
    machine := { s.machine with registers := { r with pc := r.pc + 2 } }
    word := word
    fetchedFrom := r.pc }

/-- Runs one instruction. -/
def tick [NumberSource ρ] (s : Interpreter ρ) : Reaction ρ :=
  match s.fetch with
  | .error fault => ⟨{ s with fetchedFrom := s.machine.registers.pc }, none, some fault⟩
  | .ok word =>
    let s := s.fetched word
    let line := if s.tracing then some (s.traceLine word.disassemble) else none
    let (after, fault) := s.dispatch
    ⟨after, line, fault⟩

/-- A timer one step further: down to zero and no lower. -/
def countDown (t : Int) : Int := if 0 < t then t - 1 else t

/-- Moves both timers on by one sixtieth of a second. -/
def updateTimers (s : Interpreter ρ) : Interpreter ρ :=
  let r := s.machine.registers
  { s with machine := { s.machine with
      registers := { r with dt := countDown r.dt, st := countDown r.st } } }

/-- Whether a tone sounds. -/
def soundOn (s : Interpreter ρ) : Bool := decide (0 < s.machine.registers.st)

/-- Presses or releases a key. -/
def setKey (s : Interpreter ρ) (key : Int) (pressed : Bool) : Except Fault (Interpreter ρ) := do
  let keypad ← s.machine.keypad.setKey key pressed
  return { s with machine := { s.machine with keypad } }

/-- Lights a cell of the frame, or makes it unlit. -/
def setLit (s : Interpreter ρ) (x y : Int) (lit : Bool) : Except Fault (Interpreter ρ) := do
  let frame ← s.machine.frame.setLit x y lit
  return { s with machine := { s.machine with frame } }

/-- Puts a switch of the dialect to a position. -/
def setSwitch (s : Interpreter ρ) (switch : Switch) (on : Bool) : Interpreter ρ :=
  { s with dialect := s.dialect.set switch on }

/-- Turns tracing on or off. -/
def setTracing (s : Interpreter ρ) (on : Bool) : Interpreter ρ := { s with tracing := on }

/-- The value of a byte register. -/
def register (s : Interpreter ρ) (index : Int) : Except Fault UInt8 :=
  if h : 0 ≤ index ∧ index < 16 then
    .ok (s.machine.registers.v.get ⟨index.toNat, toNat_lt_sixteen h⟩)
  else .error (.noSuchRegister index)

end Interpreter

end Chip8
