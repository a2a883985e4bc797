import Chip8.Display.Pad
import Chip8.Display.Palette
import Chip8.Startup.Setting

/-!
# Calls to the host

The calls that displays and controls make to a host library, as data.
-/

namespace Chip8

/-- A call to a host library. -/
inductive HostCall
  | openWindows
  /-- Make the window.  The width is handed on in the form in which it was asked for. -/
  | setMode (width : Setting) (height : Int)
  | setCaption (text : String)
  | wrapPixels (width height : Int) (bytes : Array UInt8)
  /-- Double a surface, smoothing its edges. -/
  | smooth
  | stretch (width : Setting) (height : Int)
  | blit (x y : Int)
  | flip
  | takeEvents
  | closeWindows
  | openTerminal
  | showCursor (mode : Setting)
  | echoOff
  /-- Get characters at once. -/
  | lineBufferOff
  | newPad (rows columns : Int)
  | write (row column : Int) (text : List Char) (reverse : Bool)
  | askSize
  | clearScreen
  /-- Tell the library that the terminal has a new size. -/
  | resizeTerminal (rows columns : Int)
  | refreshScreen
  /-- Copy the pad to the terminal, up to a last row and column. -/
  | copyPad (lastRow lastColumn : Int) (pad : Pad)
  /-- Get characters by lines again. -/
  | lineBufferOn
  | echoOn
  | closeTerminal
  /-- Let the reader of typed keys run beside the program. -/
  | startKeys
  | stopKeys
deriving DecidableEq, Inhabited

end Chip8
