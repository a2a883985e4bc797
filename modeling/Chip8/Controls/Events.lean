import Chip8.Controls.Keymap

/-!
# Keys from window events

A window system reports presses and releases.  Every event that came in is looked at, also after one
that asks to quit.  Releasing the escape key asks to quit and is never a release of a mapped key.
-/

namespace Chip8

/-- An event of the window system: its type and, for keys, the code of the key. -/
structure WindowEvent where
  type : Int
  code : Int
deriving DecidableEq, Inhabited

namespace WindowEvent

/-- The type of events that ask to quit. -/
def quitType : Int := 256

/-- The type of key presses. -/
def pressType : Int := 768

/-- The type of key releases. -/
def releaseType : Int := 769

/-- The code of the escape key. -/
def escapeCode : Int := 27

/-- Whether an event asks to quit. -/
def asksToQuit (e : WindowEvent) : Bool :=
  e.type == quitType || (e.type == releaseType && e.code == escapeCode)

/-- The change of a key that an event reports. -/
def keyChange? (m : Keymap) (e : WindowEvent) : Option (Key × Bool) :=
  if e.asksToQuit then none
  else if e.type = pressType then (m.key? e.code).map (·, true)
  else if e.type = releaseType then (m.key? e.code).map (·, false)
  else none

/-- The changes of keys that events report, in order. -/
def keyChanges (m : Keymap) (events : List WindowEvent) : List (Key × Bool) :=
  events.filterMap (·.keyChange? m)

/-- Whether any event asks to quit. -/
def anyAsksToQuit (events : List WindowEvent) : Bool := events.any asksToQuit

end WindowEvent

end Chip8
