import Chip8.Emulator.TimeScale
import Chip8.Host.Failure
import Chip8.Interpreter.Basic

/-!
# The emulator

An interpreter with a front end.  The emulator runs logical frames: a number of instructions that the
clock speed gives, then one step of the timers.  Between frames it asks the front end for input and
hands it the picture.  It counts the pictures and the instructions, which the title reports.
-/

namespace Chip8

/-- What the front end answers when it is asked for input. -/
structure Poll where
  /-- The keys that changed, in order. -/
  keys : List (Int × Bool)
  quit : Bool
deriving DecidableEq, Inhabited

/-- A front end, whose state is a value of `σ`. -/
structure FrontEnd (σ : Type) where
  setTitle : String → EStateM Failure σ Unit
  print : String → EStateM Failure σ Unit
  poll : EStateM Failure σ Poll
  present : Frame → EStateM Failure σ Unit

/-- An interpreter, the state of its front end, and the counters. -/
structure Emulator (ρ τ σ : Type) where
  interpreter : Interpreter ρ
  front : σ
  opsPerFrame : Nat
  /-- The pictures presented since the last report. -/
  presented : Nat
  /-- The instructions run since the last report. -/
  executed : Nat
  /-- The time from which the next report is due. -/
  nextReport : τ
  /-- The clock readings taken. -/
  readings : Nat
deriving Inhabited

/-- A computation on the emulator that may stop with a failure, leaving the emulator as it is then. -/
abbrev Emulation (ρ τ σ : Type) := EStateM Failure (Emulator ρ τ σ)

/-- The clock speed that is used unless another is given, in instructions per second. -/
def defaultClockSpeed : Nat := 700

/-- The number of instructions in a frame at a clock speed; there is always one. -/
def opsPerFrame (clockSpeed : Int) : Nat := (max 1 (clockSpeed / framesPerSecond)).toNat

/-- The title that reports the pictures and instructions of a second. -/
def perfTitle (pictures instructions : Int) : String :=
  appName ++ " - " ++ toString pictures ++ " FPS, " ++ toString instructions ++ " OPS"

namespace Emulation

variable {ρ τ σ : Type}

/-- Runs a computation of the front end. -/
def onFront {α : Type} (act : EStateM Failure σ α) : Emulation ρ τ σ α := fun e =>
  match act e.front with
  | .ok a front => .ok a { e with front }
  | .error failure front => .error failure { e with front }

/-- Sets the number of instructions in a frame from a clock speed. -/
def setClockSpeed (speed : Setting) : Emulation ρ τ σ Unit :=
  match speed.toInteger with
  | .ok n => modify fun e => { e with opsPerFrame := Chip8.opsPerFrame n }
  | .error f => throw (.number f)

/-- Shows the figures in the title. -/
def reportPerf (fe : FrontEnd σ) (pictures instructions : Int) : Emulation ρ τ σ Unit :=
  onFront (fe.setTitle (perfTitle pictures instructions))

/-- Runs one instruction; what the interpreter prints is printed before it fails. -/
def tick [NumberSource ρ] (fe : FrontEnd σ) : Emulation ρ τ σ Unit := do
  let reaction := (← get).interpreter.tick
  modify fun e => { e with interpreter := reaction.after }
  match reaction.printed with
  | some line => onFront (fe.print line)
  | none => pure ()
  match reaction.fault with
  | some f => throw (.fault f)
  | none => pure ()

/-- Runs a number of instructions. -/
def ticks [NumberSource ρ] (fe : FrontEnd σ) : Nat → Emulation ρ τ σ Unit
  | 0 => pure ()
  | n + 1 => do
    tick fe
    ticks fe n

/-- Runs one frame. -/
def runFrame [NumberSource ρ] (fe : FrontEnd σ) : Emulation ρ τ σ Unit := do
  let ops := (← get).opsPerFrame
  ticks fe ops
  modify fun e => { e with
    interpreter := e.interpreter.updateTimers
    executed := e.executed + ops }

/-- Runs a number of frames. -/
def runFrames [NumberSource ρ] (fe : FrontEnd σ) : Nat → Emulation ρ τ σ Unit
  | 0 => pure ()
  | n + 1 => do
    runFrame fe
    runFrames fe n

/-- Hands the picture to the front end. -/
def present (fe : FrontEnd σ) : Emulation ρ τ σ Unit := do
  onFront (fe.present (← get).interpreter.machine.frame)
  modify fun e => { e with presented := e.presented + 1 }

/-- Passes changes of keys on to the interpreter, up to the first that it refuses. -/
def pressKeys : List (Int × Bool) → Emulation ρ τ σ Unit
  | [] => pure ()
  | (key, pressed) :: keys => do
    match (← get).interpreter.setKey key pressed with
    | .ok interpreter => modify fun e => { e with interpreter }
    | .error f => throw (.fault f)
    pressKeys keys

/-- Asks the front end for input, passes the keys on, and answers whether to quit. -/
def processInputs (fe : FrontEnd σ) : Emulation ρ τ σ Bool := do
  let poll ← onFront fe.poll
  pressKeys poll.keys
  return poll.quit

end Emulation

/-- An emulator before its clock speed is set and its first title shown. -/
def Emulator.initial {ρ τ σ : Type} (t : TimeScale τ) (interpreter : Interpreter ρ) (front : σ) :
    Emulator ρ τ σ where
  interpreter := interpreter
  front := front
  opsPerFrame := 1
  presented := 0
  executed := 0
  nextReport := t.zero
  readings := 0

/-- Sets an emulator up: the clock speed, or the usual one, and the first title. -/
def Emulation.setUp {ρ τ σ : Type} (fe : FrontEnd σ) (speed : Setting) : Emulation ρ τ σ Unit := do
  setClockSpeed (if speed = .absent then .integer defaultClockSpeed else speed)
  reportPerf fe 0 0

end Chip8
