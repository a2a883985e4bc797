import Chip8.Display.Canvas
import Chip8.Emulator.Basic

/-!
# Scripted front ends

A front end that answers from a list of polls and notes what it was asked to do.  When the list is used
up, it asks to quit.
-/

namespace Chip8

/-- What a scripted front end notes. -/
inductive Note
  | title (text : String)
  | poll
  /-- A picture was completed with so many cells drawn, so many of them lit. -/
  | picture (changed : Bool) (drawn lit : Nat)
deriving DecidableEq, Inhabited

/-- The state of a scripted front end. -/
structure Script where
  /-- The polls to come. -/
  polls : List Poll
  canvas : Canvas
  /-- The notes taken, latest first. -/
  notes : List Note
  /-- The lines printed, latest first. -/
  printed : List String
deriving Inhabited

namespace Script

/-- The script of a list of polls. -/
def ofPolls (polls : List Poll) : Script := ⟨polls, .empty, [], []⟩

/-- Takes a note. -/
def note (n : Note) : EStateM Failure Script Unit := modify fun s => { s with notes := n :: s.notes }

/-- Whether a step of drawing completes the picture, and with what change. -/
def completion? : Drawing → Option Bool
  | .complete changed => some changed
  | _ => none

/-- Whether a step of drawing draws a cell. -/
def drawsCell : Drawing → Bool
  | .cell _ _ _ => true
  | _ => false

/-- Whether a step of drawing lights a cell. -/
def lightsCell : Drawing → Bool
  | .cell _ _ value => value != 0
  | _ => false

/-- The note of a drawing. -/
def pictureNote (steps : List Drawing) : Note :=
  .picture ((steps.findSome? completion?).getD false) (steps.countP drawsCell)
    (steps.countP lightsCell)

/-- The front end that follows its script. -/
def frontEnd : FrontEnd Script where
  setTitle text := note (.title text)
  print line := modify fun s => { s with printed := line :: s.printed }
  poll := do
    note .poll
    let s ← get
    match s.polls with
    | [] => return ⟨[], true⟩
    | p :: polls =>
      set { s with polls }
      return p
  present frame := do
    let s ← get
    let (canvas, steps) := s.canvas.draw frame
    set { s with canvas }
    note (pictureNote steps)

end Script

end Chip8
