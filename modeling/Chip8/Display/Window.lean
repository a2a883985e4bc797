import Chip8.Display.Canvas
import Chip8.Host.Call
import Chip8.Identity
import Chip8.Machine.Memory

/-!
# Pictures in a window

The picture is kept as three bytes for each cell.  When a frame changed it, it is wrapped as a surface,
smoothed as often as asked for, stretched to the window, and shown.
-/

namespace Chip8

/-- The width of a window unless another is given. -/
def standardWindowWidth : Nat := 512

/-- A picture in a window. -/
structure Window where
  /-- The width of the window as it was asked for, an integer or a truth value for one. -/
  width : Setting
  /-- The height of the window, half of its width. -/
  height : Int
  palette : Palette
  /-- How often to smooth; nothing if that is no number. -/
  smoothing : Option Int
  canvas : Canvas
  /-- The bytes of the picture, row after row. -/
  pixels : Array UInt8
deriving DecidableEq, Inhabited

namespace Window

/-- The bytes of a blank picture; a negative number of cells is none. -/
def blankPixels (p : Palette) (width height : Int) : Array UInt8 :=
  ((List.replicate (width * height).toNat p.unlit.bytes).flatten).toArray

/-- A window about to be opened, for a width and the integer that it stands for. -/
def new (asked : Setting) (width : Int) (palette : Palette) (smoothing : Option Int) : Window :=
  ⟨asked, Int.fdiv width 2, palette, smoothing, .empty, #[]⟩

/-- The calls that open the window. -/
def opening (w : Window) : List HostCall :=
  [.openWindows, .setMode w.width w.height, .setCaption appName]

/-- The calls that close the window. -/
def closing : List HostCall := [.closeWindows]

/-- The window with a blank picture of a new size. -/
def resize (w : Window) (width height : Int) : Window :=
  { w with
    canvas := { w.canvas with width, height }
    pixels := blankPixels w.palette width height }

/-- The place of a cell's first byte. -/
def pixelPlace (w : Window) (x y : Int) : Int := (y * w.canvas.width + x) * 3

/-- The bytes with three of them replaced by a colour. -/
def setColour (pixels : Array UInt8) (place : Nat) (c : Colour) : Array UInt8 :=
  let pixels := pixels.setIfInBounds place c.red
  let pixels := pixels.setIfInBounds (place + 1) c.green
  pixels.setIfInBounds (place + 2) c.blue

/-- Gives a cell the colour of a value; nothing if the picture has no such bytes.  A place before the
first byte counts from the end of the picture. -/
def paint (w : Window) (x y : Int) (value : UInt8) : Option Window :=
  let c := if value = 0 then w.palette.unlit else w.palette.lit
  let start := Memory.cutPosition w.pixels.size (w.pixelPlace x y)
  let stop := Memory.cutPosition w.pixels.size (w.pixelPlace x y + 3)
  if stop = start + 3 then some { w with pixels := setColour w.pixels start c } else none

/-- The calls that show the picture, and whether they are all that is needed. -/
def showing (w : Window) : List HostCall × Bool :=
  let wrap := .wrapPixels w.canvas.width w.canvas.height w.pixels
  match w.smoothing with
  | none => ([wrap], false)
  | some n =>
    (wrap :: List.replicate n.toNat .smooth ++ [.stretch w.width w.height, .blit 0 0, .flip], true)

/-- Shows the picture if it changed and has any width.  Answers the calls and whether they are all
that is needed. -/
def refresh (w : Window) (changed : Bool) : List HostCall × Bool :=
  if changed ∧ w.canvas.width ≠ 0 then w.showing else ([], true)

end Window

end Chip8
