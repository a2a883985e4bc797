import Chip8.Emulator.Basic
import Chip8.Host.Session

/-!
# Front ends

A front end is a display with the controls that go with it.  They are opened in this order, and closed
in the other.
-/

namespace Chip8

/-- The kinds of front end. -/
inductive FrontEndKind
  | window | terminal | hidden
deriving DecidableEq, Inhabited

/-- The settings of a display. -/
structure DisplaySettings where
  scale : Setting
  palette : Setting
  cursor : Setting
  smoothing : Setting
deriving DecidableEq, Inhabited

/-- Where keys come from. -/
inductive Controls
  | unused (m : Keymap)
  | events (m : Keymap)
  | typed (k : TypedKeys Float)
deriving Inhabited

/-- The integer that a setting of a size is, or the usual one if it is absent. -/
def Setting.toSize (usual : Nat) : Setting → Except Failure Int
  | .absent => .ok usual
  | .integer n => .ok n
  | .flag on => .ok (if on then 1 else 0)
  | _ => .error .wrongKind

/-- How often to smooth; nothing if the setting is no number. -/
def Setting.toPasses (s : Setting) : Option Int :=
  if s.isTrue then
    match s with
    | .integer n => some n
    | .flag _ => some 1
    | _ => none
  else some 0

/-- The palette that a setting is. -/
def Setting.toPalette : Setting → Except Failure Palette
  | .absent => .ok .standard
  | .text s => (Palette.parse s).mapError .palette
  | _ => .error .notText

/-- The keymap that a setting is. -/
def Setting.toKeymap (lower : Bool) : Setting → Except Failure Keymap
  | .text s => (Keymap.parse s lower).mapError .keymap
  | _ => .error .notText

namespace Display

open InSession

/-- Opens a display.  The palette is read before anything is opened, the scale of a terminal only
after. -/
def create (host : Host) (settings : DisplaySettings) : FrontEndKind → InSession Display
  | .hidden => return .hidden .empty
  | .window => do
    let palette ← attempt settings.palette.toPalette
    let width ← attempt (settings.scale.toSize standardWindowWidth)
    let w := Window.new (settings.scale.orElse (.integer width)) width palette settings.smoothing.toPasses
    callAll host w.opening
    return .window (w.resize 0 0)
  | .terminal => do
    callAll host (Terminal.opening settings.cursor)
    let scale ← attempt (settings.scale.toSize standardStretch)
    let (t, calls) := (Terminal.new scale).resize 0 0
    callAll host calls
    return .terminal t

/-- Closes a display.  Not every terminal lets its cursor show again, which does not matter. -/
def close (host : Host) : Display → InSession Unit
  | .hidden _ => pure ()
  | .window _ => callAll host Window.closing
  | .terminal _ => do
    callAll host [.lineBufferOn, .echoOn]
    tryCatch (call host (.showCursor (.integer 1))) fun
      | .refused => pure ()
      | f => throw f
    call host .closeTerminal

end Display

namespace Controls

open InSession

/-- Opens controls.  The reader of typed keys is started, and reads when it has its turns. -/
def create (host : Host) (keymap : Setting) : FrontEndKind → InSession Controls
  | .hidden => return .unused (← attempt (keymap.toKeymap false))
  | .window => return .events (← attempt (keymap.toKeymap false))
  | .terminal => do
    let m ← attempt (keymap.toKeymap true)
    call host .startKeys
    return .typed (.new .seconds m)

/-- The changes of keys, with integers for keys. -/
def asKeys (changes : List (Key × Bool)) : List (Int × Bool) :=
  changes.map fun (k, pressed) => ((k.val : Int), pressed)

/-- Asks for input. -/
def poll (host : Host) : Controls → InSession (Controls × Poll)
  | .unused m => return (.unused m, ⟨[], false⟩)
  | .events m => do
    let events ← takeEvents host
    return (.events m,
      ⟨asKeys (WindowEvent.keyChanges m events), WindowEvent.anyAsksToQuit events⟩)
  | .typed k => do
    let now ← time
    let s ← get
    let ((k, changes, quit), typing) := k.pollAmong HoldScale.seconds now s.typing
    set { s with typing }
    return (.typed k, ⟨asKeys changes, quit⟩)

/-- Closes controls. -/
def close (host : Host) : Controls → InSession Unit
  | .typed _ => call host .stopKeys
  | _ => pure ()

end Controls

/-- The state of a front end in a session. -/
structure Front where
  display : Display
  controls : Controls
  session : Session
deriving Inhabited

namespace Front

/-- Runs a computation in the session of a front end. -/
def inSession {α : Type} (act : InSession α) : EStateM Failure Front α := fun f =>
  match act f.session with
  | .ok a session => .ok a { f with session }
  | .error failure session => .error failure { f with session }

/-- Has the display do something. -/
def onDisplay (host : Host) (act : Screen → Display → Effect Display) :
    EStateM Failure Front Unit := do
  let screen ← inSession (InSession.screen host)
  let f ← get
  let effect := act screen f.display
  set { f with display := effect.after }
  let _ ← inSession (InSession.carryOut host effect)

/-- The front end of a session with a host. -/
def frontEnd (host : Host) : FrontEnd Front where
  setTitle title := onDisplay host fun _ d => d.setTitle title
  print line := inSession (InSession.print line)
  poll := do
    let f ← get
    let (controls, poll) ← inSession (f.controls.poll host)
    modify fun f => { f with controls }
    return poll
  present frame := onDisplay host fun screen d => d.draw screen frame

/-- Closes the controls, then the display; the display is closed also if the controls fail to. -/
def close (host : Host) (f : Front) : InSession Unit := do
  f.controls.close host
  f.display.close host

end Front

end Chip8
