import Chip8.Display.Terminal
import Chip8.Display.Window
import Chip8.Host.Failure

/-!
# Displays

The three ways to show a picture: not at all, in a window, or in a terminal.  A display takes the steps
of a drawing; the effect of a step is the display after it, the calls it makes to the host, and why it
failed after them if it did.
-/

namespace Chip8

/-- What a step leaves behind. -/
structure Effect (α : Type) where
  after : α
  calls : List HostCall
  failure : Option Failure
deriving Inhabited

/-- The size of the host's terminal, and whether the host library wants to be told of new ones. -/
structure Screen where
  rows : Int
  columns : Int
  canResize : Bool
deriving DecidableEq, Inhabited

/-- A display. -/
inductive Display
  | hidden (canvas : Canvas)
  | window (w : Window)
  | terminal (t : Terminal)
deriving DecidableEq, Inhabited

/-- A step in a window. -/
def Window.take (w : Window) : Drawing → Effect Window
  | .resize width height => ⟨w.resize width height, [], none⟩
  | .cell x y value =>
    match w.paint x y value with
    | some w => ⟨w, [], none⟩
    | none => ⟨w, [], some .outsidePicture⟩
  | .complete changed =>
    let (calls, enough) := w.refresh changed
    ⟨w, calls, if enough then none else some .wrongKind⟩

namespace Display

/-- The canvas of a display. -/
def canvas : Display → Canvas
  | hidden c => c
  | window w => w.canvas
  | terminal t => t.canvas

/-- The display with another canvas. -/
def setCanvas : Display → Canvas → Display
  | hidden _, c => hidden c
  | window w, c => window { w with canvas := c }
  | terminal t, c => terminal { t with canvas := c }

/-- Takes a step of drawing. -/
def take (screen : Screen) (step : Drawing) : Display → Effect Display
  | hidden c =>
    match step with
    | .resize width height => ⟨hidden { c with width, height }, [], none⟩
    | _ => ⟨hidden c, [], none⟩
  | window w =>
    let e := w.take step
    ⟨window e.after, e.calls, e.failure⟩
  | terminal t =>
    let (t, calls) := t.take (screen.rows, screen.columns) screen.canResize step
    ⟨terminal t, calls, none⟩

/-- Takes steps of drawing in turn, up to the first that fails. -/
def takeAll (screen : Screen) : List Drawing → Display → Effect Display
  | [], d => ⟨d, [], none⟩
  | step :: steps, d =>
    let e := d.take screen step
    match e.failure with
    | some f => ⟨e.after, e.calls, some f⟩
    | none =>
      let rest := takeAll screen steps e.after
      ⟨rest.after, e.calls ++ rest.calls, rest.failure⟩

/-- Draws a frame. -/
def draw (screen : Screen) (f : Frame) (d : Display) : Effect Display :=
  if d.canvas.covers f then
    let (canvas, steps) := d.canvas.draw f
    (d.setCanvas canvas).takeAll screen steps
  else
    let e := d.takeAll screen (d.canvas.knownChanges f)
    { e with failure := e.failure <|> some .unknownCell }

/-- Sets the title. -/
def setTitle (title : String) : Display → Effect Display
  | hidden c => ⟨hidden c, [], none⟩
  | window w => ⟨window w, [.setCaption title], none⟩
  | terminal t =>
    let (t, calls) := t.setTitle title
    ⟨terminal t, calls, none⟩

end Display

end Chip8
