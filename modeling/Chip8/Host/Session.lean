import Chip8.Controls.Events
import Chip8.Controls.KeyReader
import Chip8.Display.Basic

/-!
# Sessions with a host

A session is what happens between the program and its host: the calls made, the lines printed, and what
the host still has to deliver.  The host may refuse any call; a refused call is noted all the same.
-/

namespace Chip8

/-- How a host behaves. -/
structure Host where
  backends : List Backend
  /-- Whether a call is refused, given the calls before it, latest first. -/
  refuses : List HostCall → HostCall → Bool
  /-- Whether the terminal library wants to be told of new sizes. -/
  canResize : Bool
  /-- The bytes of a file. -/
  file : String → Except Failure (List UInt8)
  /-- The seed used when none is given. -/
  entropy : Int

/-- The state of a session. -/
structure Session where
  /-- The calls made, latest first. -/
  calls : List HostCall
  printed : List String
  events : List (List WindowEvent)
  /-- The turns of the reader of typed keys before each look into its queue to come. -/
  typing : List (List ReaderTurn)
  /-- The times of the polls to come, in seconds; the last is repeated. -/
  times : List Float
  /-- The rows and columns of the terminal. -/
  terminal : Int × Int
deriving Inhabited

/-- A computation in a session. -/
abbrev InSession := EStateM Failure Session

namespace InSession

/-- Makes a call. -/
def call (host : Host) (c : HostCall) : InSession Unit := do
  let s ← get
  set { s with calls := c :: s.calls }
  if host.refuses s.calls c then throw .refused else pure ()

/-- Makes calls in turn. -/
def callAll (host : Host) : List HostCall → InSession Unit
  | [] => pure ()
  | c :: calls => do
    call host c
    callAll host calls

/-- Prints a line. -/
def print (line : String) : InSession Unit :=
  modify fun s => { s with printed := line :: s.printed }

/-- The value of an attempt. -/
def attempt {α : Type} (result : Except Failure α) : InSession α :=
  match result with
  | .ok a => pure a
  | .error f => throw f

/-- Makes the calls of an effect, and fails if it did. -/
def carryOut {α : Type} (host : Host) (e : Effect α) : InSession α := do
  callAll host e.calls
  match e.failure with
  | some f => throw f
  | none => return e.after

/-- The screen as it is now. -/
def screen (host : Host) : InSession Screen := do
  let s ← get
  return ⟨s.terminal.1, s.terminal.2, host.canResize⟩

/-- The window events that came in. -/
def takeEvents (host : Host) : InSession (List WindowEvent) := do
  call host .takeEvents
  let s ← get
  match s.events with
  | [] => return []
  | batch :: events =>
    set { s with events }
    return batch

/-- The time. -/
def time : InSession Float := do
  let s ← get
  match s.times with
  | [] => return 0
  | [t] => return t
  | t :: times =>
    set { s with times }
    return t

end InSession

end Chip8
