import Chip8.Controls.Keymap
import Chip8.Display.Palette
import Chip8.Machine.Fault
import Chip8.Startup.Options

/-!
# Failures

Everything that can end a run of the program: faults of the machine, options that make no sense, and
what the host refuses.
-/

namespace Chip8

/-- The host libraries that a display needs. -/
inductive Backend
  | windowing | terminal
deriving DecidableEq, Inhabited

namespace Backend

/-- The name under which a host library is looked for. -/
def label : Backend → String
  | windowing => "pygame"
  | terminal => "curses"

/-- The name that a user knows a host library by. -/
def title : Backend → String
  | windowing => "PyGame"
  | terminal => "Curses (or Windows-Curses)"

end Backend

/-- Why a run ended early. -/
inductive Failure
  | fault (f : Fault)
  | keymap (e : Keymap.Error)
  | palette (e : Palette.Error)
  | number (f : NumberFault)
  | unknownDialect (name : String)
  | unknownRenderer (name : String)
  /-- No front end can be chosen, as no host library is there. -/
  | noBackend
  | missingBackend (b : Backend)
  | missingOption (name : OptionName)
  | wrongKind
  | notText
  | noFile
  | isDirectory
  /-- Pixels were to be written outside the picture. -/
  | outsidePicture
  /-- A cell was to be compared with one that was never shown. -/
  | unknownCell
  | clockExhausted
  | refused
deriving DecidableEq, Inhabited

/-- The words in which a failure is reported, empty if it has none of its own. -/
def Failure.message : Failure → String
  | fault f => f.message
  | keymap e => e.message
  | palette e => e.message
  | unknownDialect name => "Unknown quirk preset: " ++ name
  | unknownRenderer name => "Unknown renderer: " ++ name
  | noBackend =>
    "Neither " ++ Backend.windowing.title ++ " nor " ++ Backend.terminal.title ++ " appear to be installed."
  | missingBackend b => b.title ++ " does not appear to be installed."
  | _ => ""

end Chip8
