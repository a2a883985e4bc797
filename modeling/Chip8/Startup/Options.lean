import Chip8.Instruction.Dialect
import Chip8.Startup.Setting

/-!
# Options

The options that the program is started with, by name.  A front end hands over a value for each; one
that it forgets is an error when it is looked up, not before.
-/

namespace Chip8

/-- The name of an option. -/
inductive OptionName
  | filename
  | arch
  | clockSpeed
  | seed
  | switch (s : Switch)
  | renderer
  | scale
  | smoothing
  | palette
  | cursorMode
  | keymap
  | debug
deriving DecidableEq, Inhabited

namespace OptionName

/-- All options. -/
def all : List OptionName :=
  [filename, arch, clockSpeed, seed] ++ Switch.all.map switch
    ++ [renderer, scale, smoothing, palette, cursorMode, keymap, debug]

/-- The name under which an option is handed over. -/
def label : OptionName → String
  | filename => "filename"
  | arch => "arch"
  | clockSpeed => "clock_speed"
  | seed => "seed"
  | switch s => s.label ++ "_quirks"
  | renderer => "renderer"
  | scale => "scale"
  | smoothing => "smoothing"
  | palette => "pygame_palette"
  | cursorMode => "curses_cursor_mode"
  | keymap => "keymap"
  | debug => "debug"

end OptionName

/-- The values of the options handed over. -/
abbrev Options := OptionName → Option Setting

namespace Options

/-- No options. -/
def none : Options := fun _ => Option.none

/-- The options with one value set. -/
def set (o : Options) (name : OptionName) (value : Setting) : Options := fun other =>
  if other = name then some value else o other

@[simp] theorem set_self (o : Options) (name : OptionName) (value : Setting) :
    o.set name value name = some value := by simp [set]

theorem set_of_ne (o : Options) {name other : OptionName} (value : Setting) (h : other ≠ name) :
    o.set name value other = o other := by simp [set, h]

end Options

end Chip8
