import Chip8.Interpreter.Basic

/-!
# Operations on the interpreter

The operations that a host may call, as data, so that a history is a list.  Performing one gives a
reaction, also when it fails; a history goes on after a failure.
-/

namespace Chip8

/-- An operation that a host may call. -/
inductive Operation
  | reset
  | loadRom (rom : List UInt8)
  | tick
  | updateTimers
  | setKey (key : Int) (pressed : Bool)
  | setSwitch (switch : Switch) (on : Bool)
  | setLit (x y : Int) (lit : Bool)
deriving DecidableEq, Inhabited

namespace Interpreter

variable {ρ : Type}

/-- The reaction of an operation that leaves the interpreter alone when it fails. -/
def react (s : Interpreter ρ) (result : Except Fault (Interpreter ρ)) : Reaction ρ :=
  match result with
  | .ok after => ⟨after, none, none⟩
  | .error fault => ⟨s, none, some fault⟩

/-- Performs an operation. -/
def perform [NumberSource ρ] (s : Interpreter ρ) : Operation → Reaction ρ
  | .reset => ⟨s.reset, none, none⟩
  | .loadRom rom => s.react (s.loadRom rom)
  | .tick => s.tick
  | .updateTimers => ⟨s.updateTimers, none, none⟩
  | .setKey key pressed => s.react (s.setKey key pressed)
  | .setSwitch switch on => ⟨s.setSwitch switch on, none, none⟩
  | .setLit x y lit => s.react (s.setLit x y lit)

/-- The state after a history of operations. -/
def after [NumberSource ρ] (s : Interpreter ρ) (history : List Operation) : Interpreter ρ :=
  history.foldl (fun s op => (s.perform op).after) s

/-- The reactions to a history of operations, in order. -/
def reactions [NumberSource ρ] (s : Interpreter ρ) : List Operation → List (Reaction ρ)
  | [] => []
  | op :: history => s.perform op :: reactions (s.perform op).after history

/-- The reactions to ticks, up to the first that fails. -/
def ticks [NumberSource ρ] (s : Interpreter ρ) : Nat → List (Reaction ρ)
  | 0 => []
  | n + 1 =>
    let r := s.tick
    r :: if r.fault.isSome then [] else ticks r.after n

end Interpreter

end Chip8
