import Chip8.Emulator.Script
import Chip8.Main
import Chip8.Proofs.Interpreter.Restart
import Chip8.Proofs.Interpreter.Subroutine
import Chip8.Proofs.Instruction.Listing
import Chip8.Proofs.Interpreter.Disassembly
import Chip8.Proofs.Display.Mirror
import Chip8.Proofs.Controls.Handover
import Chip8.Proofs.Emulator.Events
import Chip8.Proofs.Emulator.Rounds
import Chip8.Proofs.Instruction.Footprint
import Chip8.Proofs.Interpreter.Footprint
import Chip8.Proofs.Instruction.Switches
import Chip8.Proofs.Interpreter.Switches
import Chip8.Proofs.Controls.Holding
import Chip8.Proofs.Startup.Closing
import Chip8.Proofs.Interpreter.Tracing
import Chip8.Proofs.Interpreter.Isolation
import Chip8.Proofs.Display.Terminal
import Chip8.Proofs.Display.Window
import Chip8.Proofs.Instruction.Coverage
import Chip8.Proofs.Controls.KeymapTexts
import Chip8.Proofs.Controls.Survival
import Chip8.Proofs.Startup.Choices
import Chip8.Proofs.Display.Palettes
import Chip8.Proofs.Instruction.Arithmetic
import Chip8.Proofs.Instruction.Stamps
import Chip8.Proofs.Instruction.Transfers
import Chip8.Proofs.Interpreter.Waiting
import Chip8.Proofs.Interpreter.Loading
import Chip8.Proofs.Interpreter.Reports
import Chip8.Proofs.Machine.Accesses
import Chip8.Proofs.Controls.WindowKeys
import Chip8.Proofs.Emulator.Pacing
import Chip8.Proofs.Machine.Stacking
import Chip8.Proofs.Machine.Strokes
import Chip8.Proofs.Controls.PlainKeymaps
import Chip8.Proofs.Interpreter.ProgramLines
