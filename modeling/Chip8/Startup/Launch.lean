import Chip8.Emulator.Run
import Chip8.Host.FrontEnd
import Chip8.Random.Seed

/-!
# Starting the program

From options to a run: the dialect and the front end are chosen, the program is read before anything is
opened, then the display, the controls and the emulator are set up in turn, and the emulator runs until
the user quits or something fails.  What was opened is closed after the run.
-/

namespace Chip8

open InSession

/-- Looks an option up. -/
def Options.get (o : Options) (name : OptionName) : Except Failure Setting :=
  match o name with
  | some value => .ok value
  | Option.none => .error (.missingOption name)

/-- The name by which a setting chooses something from a table.  A collection is no name. -/
def Setting.toName : Setting → Except Failure String
  | .collection _ => .error .wrongKind
  | s => .ok s.message

namespace Dialect

/-- The dialect that a setting names; one that counts as false names the usual one. -/
def ofSetting (arch : Setting) : Except Failure Dialect := do
  if arch.isTrue then
    let name ← arch.toName
    match arch, ofName? name with
    | .text _, some d => return d
    | _, _ => throw (.unknownDialect name)
  else return modern

/-- The dialect with switches put to what options say of them, in turn. -/
def overrideAll (o : Options) (d : Dialect) : List Switch → Except Failure Dialect
  | [] => return d
  | s :: switches => do
    let value ← o.get (.switch s)
    overrideAll o (match value.toChoice with
      | some on => d.set s on
      | none => d) switches

/-- The dialect that options choose: a named one, then single switches. -/
def ofOptions (o : Options) : Except Failure Dialect := do
  let d ← ofSetting (← o.get .arch)
  overrideAll o d Switch.all

end Dialect

namespace FrontEndKind

/-- The name of a kind of front end. -/
def label : FrontEndKind → String
  | window => "pygame"
  | terminal => "curses"
  | hidden => "null"

/-- The host library that a kind of front end needs. -/
def backend? : FrontEndKind → Option Backend
  | window => some .windowing
  | terminal => some .terminal
  | hidden => none

/-- All kinds of front end. -/
def all : List FrontEndKind := [window, terminal, hidden]

/-- The kind of front end of a name. -/
def ofLabel? (name : String) : Option FrontEndKind := all.find? (·.label == name)

/-- Whether the host has what a kind of front end needs. -/
def available (backends : List Backend) (k : FrontEndKind) : Bool :=
  match k.backend? with
  | some b => backends.contains b
  | none => true

/-- The kind of front end that is used when none is asked for: a window, else a terminal. -/
def automatic (backends : List Backend) : Except Failure FrontEndKind :=
  match [window, terminal].find? (available backends) with
  | some k => .ok k
  | none => .error .noBackend

/-- The kind of front end that a setting asks for. -/
def choose (backends : List Backend) (renderer : Setting) : Except Failure FrontEndKind := do
  if renderer = .absent then automatic backends
  else
    let name ← renderer.toName
    match renderer, ofLabel? name with
    | .text _, some k =>
      match k.backend? with
      | some b => if backends.contains b then return k else throw (.missingBackend b)
      | none => return k
    | _, _ => throw (.unknownRenderer name)

end FrontEndKind

/-- The source of random numbers of a seed; without a seed it is left to chance. -/
def Twister.ofSetting (entropy : Int) : Setting → Except Failure Twister
  | .integer n => .ok (.ofSeed n)
  | .flag on => .ok (.ofSeed (if on then 1 else 0))
  | .decimal d => .ok (.ofDecimal d)
  | .text s => .ok (.ofText s)
  | .collection _ => .error .wrongKind
  | .absent => .ok (.ofSeed entropy)

/-- The bytes of the program's file. -/
def readRom (host : Host) : Setting → Except Failure (List UInt8)
  | .text name => host.file name
  | _ => .error .wrongKind

/-- What the program prints first. -/
def banner : String := introduction ++ legalNotice

/-- The interpreter and the kind of front end that options ask for, found out before anything is
opened. -/
def plan (host : Host) (o : Options) : Except Failure (FrontEndKind × Interpreter Twister) := do
  let dialect ← Dialect.ofOptions o
  let kind ← FrontEndKind.choose host.backends (← o.get .renderer)
  let rom ← readRom host (← o.get .filename)
  let tracing := (← o.get .debug).isTrue
  let numbers ← Twister.ofSetting host.entropy (← o.get .seed)
  let interpreter ← ((Interpreter.new dialect tracing numbers).loadRom rom).mapError .fault
  return (kind, interpreter)

/-- The settings of the display in options. -/
def displaySettings (o : Options) : Except Failure DisplaySettings := do
  return {
    scale := ← o.get .scale
    palette := ← o.get .palette
    cursor := ← o.get .cursorMode
    smoothing := ← o.get .smoothing }

/-- Opens the controls; if they fail to open, the display is closed. -/
def openControls (host : Host) (o : Options) (kind : FrontEndKind) (d : Display) :
    InSession Controls :=
  tryCatch (do Controls.create host (← attempt (o.get .keymap)) kind) fun failure => do
    d.close host
    throw failure

/-- An emulator that is set up, ready to run. -/
abbrev Running := Emulator Twister Float Front

/-- Sets everything up: the plan, the display, the controls, the emulator with its first title. -/
def prepare (host : Host) (o : Options) : InSession Running := do
  print banner
  let (kind, interpreter) ← attempt (plan host o)
  let display ← Display.create host (← attempt (displaySettings o)) kind
  let controls ← openControls host o kind display
  let speed ← attempt (o.get .clockSpeed)
  let session ← get
  let start : Running := .initial .seconds interpreter { display, controls, session }
  match Emulation.setUp (Front.frontEnd host) speed start with
  | .ok _ e =>
    set e.front.session
    return e
  | .error failure e =>
    set e.front.session
    throw failure

/-- Runs an emulator that is set up along the readings of the clock, and closes its front end.  Answers
the number of readings taken and how the run ended. -/
def runPrepared (host : Host) (clock : List Float) (start : Running) :
    InSession (Nat × Except Failure Unit) := do
  let (ended, e) : Except Failure Unit × Running :=
    match Emulation.run .seconds (Front.frontEnd host) clock start with
    | .ok _ e => (.ok (), e)
    | .error failure e => (.error failure, e)
  set e.front.session
  e.front.close host
  return (e.readings, ended)

/-- Runs the program.  Answers the number of clock readings taken and how the run ended. -/
def launch (host : Host) (o : Options) (clock : List Float) :
    InSession (Nat × Except Failure Unit) := do
  runPrepared host clock (← prepare host o)

end Chip8
