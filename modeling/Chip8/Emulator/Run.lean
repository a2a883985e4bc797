import Chip8.Emulator.Basic

/-!
# The emulator against the clock

The loop takes a clock reading, pays the time since the last one out in whole frames, asks for input,
presents the picture, and then takes readings until the time of the next frame has come.  The readings
come as a list, so that a run is a function of them; it ends when the user quits, when something fails,
or when there is no further reading.
-/

namespace Chip8

/-- What the next clock reading is for. -/
inductive Pace (τ : Type)
  /-- It is the first; time is counted from it. -/
  | starting
  /-- It begins a round; `last` began the one before, and `owed` is time not yet paid out. -/
  | ready (last owed : τ)
  /-- It is compared with the time `target` of the next round. -/
  | waiting (target last owed : τ)
deriving Inhabited

namespace Emulation

variable {ρ τ σ : Type}

/-- Notes that a clock reading was taken. -/
def countReading : Emulation ρ τ σ Unit := modify fun e => { e with readings := e.readings + 1 }

/-- Shows the figures since the last report and starts new ones, if a report is due. -/
def reportIfDue (t : TimeScale τ) (fe : FrontEnd σ) (now : τ) : Emulation ρ τ σ Unit := do
  let e ← get
  if t.le e.nextReport now then
    set { e with nextReport := t.nextSecond now }
    reportPerf fe e.presented e.executed
    modify fun e => { e with executed := 0, presented := 0 }
  else pure ()

/-- One round, begun at the reading `now`: answers how to go on, or nothing if the user quits. -/
def round [NumberSource ρ] (t : TimeScale τ) (fe : FrontEnd σ) (last owed now : τ) :
    Emulation ρ τ σ (Option (Pace τ)) := do
  let (frames, left) := t.framesIn (t.add owed (t.stretch last now))
  reportIfDue t fe now
  runFrames fe frames
  if ← processInputs fe then return none
  present fe
  return some (.waiting (t.sub (t.add now t.frame) left) now left)

/-- Takes a clock reading: answers how to go on, or nothing if the user quits. -/
def takeReading [NumberSource ρ] (t : TimeScale τ) (fe : FrontEnd σ) (pace : Pace τ) (now : τ) :
    Emulation ρ τ σ (Option (Pace τ)) := do
  countReading
  match pace with
  | .starting => return some (.ready now t.zero)
  | .ready last owed => round t fe last owed now
  | .waiting target last owed => return some (if t.lt now target then pace else .ready last owed)

/-- Runs on through the readings of the clock. -/
def runFrom [NumberSource ρ] (t : TimeScale τ) (fe : FrontEnd σ) :
    Pace τ → List τ → Emulation ρ τ σ Unit
  | _, [] => throw .clockExhausted
  | pace, now :: clock => do
    match ← takeReading t fe pace now with
    | none => pure ()
    | some next => runFrom t fe next clock

/-- Runs until the user quits. -/
def run [NumberSource ρ] (t : TimeScale τ) (fe : FrontEnd σ) (clock : List τ) :
    Emulation ρ τ σ Unit :=
  runFrom t fe .starting clock

end Emulation

end Chip8
