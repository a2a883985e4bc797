import Chip8.Display.Canvas
import Chip8.Host.Call
import Chip8.Machine.Memory

/-!
# Pictures in a terminal

The picture is drawn on a pad: its first row is the title bar, and below it each lit cell is a run of
blanks in reverse video, as wide as the scale says.  The pad is copied to the terminal when something
was written on it or the terminal has another size than the last time.
-/

namespace Chip8

/-- The rows of the pad above the picture. -/
def titleRows : Nat := 1

/-- How many columns wide a cell is drawn unless another number is given. -/
def standardStretch : Nat := 2

/-- A picture in a terminal. -/
structure Terminal where
  scale : Int
  canvas : Canvas
  pad : Pad
  title : String
  /-- Whether something was written since the pad was last copied. -/
  dirty : Bool
  /-- The size of the terminal when it was last looked at. -/
  seenSize : Option (Int × Int)
deriving DecidableEq, Inhabited

namespace Terminal

/-- A terminal about to be taken over. -/
def new (scale : Int) : Terminal := ⟨scale, .empty, .blank 0 0, "", false, none⟩

/-- The calls that take the terminal over. -/
def opening (cursor : Setting) : List HostCall :=
  [.openTerminal, .showCursor cursor, .echoOff, .lineBufferOff]

/-- Writes on the pad. -/
def write (t : Terminal) (row column : Int) (text : List Char) (reverse : Bool) :
    Terminal × List HostCall :=
  ({ t with pad := t.pad.write row column text reverse, dirty := true },
    [.write row column text reverse])

/-- The first characters of a text, up to a width; a negative width counts from the end. -/
def firstChars (text : List Char) (width : Int) : List Char :=
  text.take (Memory.cutPosition text.length width)

/-- A text cut or filled with blanks to a width. -/
def barText (text : List Char) (width : Int) : List Char :=
  let cut := firstChars text width
  cut ++ List.replicate (width.toNat - cut.length) ' '

/-- The width of the picture on the pad. -/
def barWidth (t : Terminal) : Int := t.canvas.width * t.scale

/-- Writes the title bar, if the picture has any width. -/
def drawTitle (t : Terminal) : Terminal × List HostCall :=
  if t.barWidth = 0 then (t, []) else t.write 0 0 (barText t.title.toList t.barWidth) true

/-- Sets the title. -/
def setTitle (t : Terminal) (title : String) : Terminal × List HostCall :=
  { t with title }.drawTitle

/-- The terminal with a new pad for pictures of a size.  One column is spare, as the last cell of a pad
cannot be written. -/
def resize (t : Terminal) (width height : Int) : Terminal × List HostCall :=
  let rows := height + titleRows + 1
  let columns := width * t.scale + 1
  let sized := { t with pad := .blank rows columns, canvas := { t.canvas with width, height } }
  let (t, calls) := sized.drawTitle
  (t, .newPad rows columns :: calls)

/-- Draws a cell. -/
def paint (t : Terminal) (x y : Int) (value : UInt8) : Terminal × List HostCall :=
  t.write (y + titleRows) (x * t.scale) (List.replicate t.scale.toNat ' ') (value != 0)

/-- Notes the size of the terminal, and blanks it if that is new; `canResize` says whether the host
library wants to be told. -/
def look (t : Terminal) (size : Int × Int) (canResize : Bool) : Terminal × List HostCall :=
  if t.seenSize = some size then (t, [])
  else
    ({ t with seenSize := some size, dirty := true },
      .clearScreen :: (if canResize then [.resizeTerminal size.1 size.2] else []) ++ [.refreshScreen])

/-- Copies the pad to the terminal if it has to be. -/
def copy (t : Terminal) (size : Int × Int) : Terminal × List HostCall :=
  if t.dirty then
    ({ t with dirty := false, pad := t.pad.copied }, [.copyPad (size.1 - 1) (size.2 - 1) t.pad])
  else (t, [])

/-- Brings a terminal of a size up to date. -/
def refresh (t : Terminal) (size : Int × Int) (canResize : Bool) : Terminal × List HostCall :=
  let (t, looked) := t.look size canResize
  let (t, copied) := t.copy size
  (t, .askSize :: looked ++ copied)

/-- Takes a step of drawing. -/
def take (t : Terminal) (size : Int × Int) (canResize : Bool) : Drawing → Terminal × List HostCall
  | .resize width height => t.resize width height
  | .cell x y value => t.paint x y value
  | .complete _ => t.refresh size canResize

/-- Takes steps of drawing in turn. -/
def takeAll (t : Terminal) (size : Int × Int) (canResize : Bool) :
    List Drawing → Terminal × List HostCall
  | [] => (t, [])
  | step :: steps =>
    let (t, calls) := t.take size canResize step
    let (t, more) := t.takeAll size canResize steps
    (t, calls ++ more)

end Terminal

end Chip8
