import Chip8.Proofs.Instruction.Listing
import Chip8.Proofs.Interpreter.Failure

/-!
# Disassembly and execution

What a listing says of the word under the program counter is what a tick does with it: `???` stands
for exactly the words that end a tick as illegal, and a word can be listed iff it can be fetched.  A
mnemonic other than `???` determines what its words do (`disassembly_agrees`).
-/

namespace Chip8

namespace Interpreter

variable {ρ : Type} {s : Interpreter ρ}

/-- The interpreter with the program counter at an address. -/
def withPc (s : Interpreter ρ) (address : Int) : Interpreter ρ :=
  { s with machine := { s.machine with registers := { s.machine.registers with pc := address } } }

/-! ### Addresses -/

theorem wordAt_cases (h : s.machine.WellFormed) (address : Int) :
    (0 ≤ address ∧ address ≤ 0xFFE ∧ ∃ w, s.wordAt address = .ok w) ∨
      ((address < 0 ∨ 0xFFE < address) ∧
        s.wordAt address = .error (.outOfRange address (address + 1) 0xFFF)) := by
  have hm := h.memory_size
  by_cases ha : 0 ≤ address ∧ address ≤ 0xFFE
  · left
    refine ⟨ha.1, ha.2, ?_⟩
    rw [wordAt, Memory.readBlock_of_le _ ha.1 (by omega)]
    exact ⟨_, rfl⟩
  · right
    have hcheck : s.machine.memory.check address 2 =
        .error (.outOfRange address (address + 1) 0xFFF) := by
      rw [Memory.check, top_eq h, if_pos (by omega), Int.add_sub_assoc]
      rfl
    refine ⟨by omega, ?_⟩
    rw [wordAt, Memory.readBlock, hcheck]
    rfl

theorem disassemble_of_ok {address : Int} {w : Opcode} (h : s.wordAt address = .ok w) :
    s.disassemble address = .ok w.disassemble := by
  rw [disassemble, h]
  rfl

theorem disassemble_of_error {address : Int} {f : Fault} (h : s.wordAt address = .error f) :
    s.disassemble address = .error f := by
  rw [disassemble, h]
  rfl

/-! ### Words -/

variable [NumberSource ρ]

theorem dispatch_congr (s : Interpreter ρ) {w w' : Opcode} {i : Instruction}
    (h : Instruction.ofOpcode? w = some i) (h' : Instruction.ofOpcode? w' = some i) :
    { s with word := w' }.dispatch =
      ({ { s with word := w }.dispatch.1 with word := w' }, { s with word := w }.dispatch.2) := by
  simp only [dispatch, h, h']
  cases (i.execute s.dialect) s.machine <;> rfl

/-- In every reachable state `???` is listed iff the tick meets an illegal word, nothing is listed iff
fetching is refused, and two words with the same mnemonic are dispatched alike. -/
theorem disassembly_agrees (dialect : Dialect) (tracing : Bool) (numbers : ρ)
    (history : List Operation) :
    let s := (new dialect tracing numbers).after history
    let pc := s.machine.registers.pc
    (pc ≤ 0xFFE → ∃ text, s.disassemble pc = .ok text ∧
      (text = "???" ↔ ∃ w a report, s.tick.fault = some (.illegal w a report))) ∧
    (∀ address,
      ((∃ first last top, s.disassemble address = .error (.outOfRange first last top)) ↔
        ∃ first last top, (s.withPc address).fetch = .error (.outOfRange first last top)) ∧
      ((∃ f, s.disassemble address = .error f) ↔ address < 0 ∨ 0xFFE < address)) ∧
    ∀ (u : Interpreter ρ) (w w' : Opcode), w.disassemble = w'.disassemble →
      w.disassemble ≠ "???" →
      { u with word := w' }.dispatch =
        ({ { u with word := w }.dispatch.1 with word := w' }, { u with word := w }.dispatch.2) := by
  intro s pc
  have hs : s.Reachable := ⟨dialect, tracing, numbers, history, rfl⟩
  have h := hs.wellFormed
  refine ⟨?_, ?_, ?_⟩
  · intro hpc
    obtain ⟨w, hw⟩ : ∃ w, s.fetch = .ok w := by
      rcases fetch_cases h with ⟨-, hw⟩ | ⟨hlt, -⟩
      · exact hw
      · exact absurd hpc (Int.not_le.2 hlt)
    refine ⟨w.disassemble, disassemble_of_ok hw, Opcode.disassemble_eq_unknown_iff.trans ?_⟩
    constructor
    · intro hi
      exact ⟨w, pc, (fault_tick_eq_illegal_iff h hw w pc).2 ⟨hi, rfl, rfl⟩⟩
    · rintro ⟨w', a, hf⟩
      exact ((fault_tick_eq_illegal_iff h hw w' a).1 hf).1
  · intro address
    rcases wordAt_cases h address with ⟨h₀, hle, w, hw⟩ | ⟨hout, he⟩
    · have hfetch : (s.withPc address).fetch = .ok w := hw
      rw [disassemble_of_ok hw, hfetch]
      simp only [reduceCtorEq, exists_false, true_and, false_iff]
      omega
    · have hfetch : (s.withPc address).fetch = .error (.outOfRange address (address + 1) 0xFFF) := he
      rw [disassemble_of_error he, hfetch]
      exact ⟨iff_of_true ⟨_, _, _, rfl⟩ ⟨_, _, _, rfl⟩, iff_of_true ⟨_, rfl⟩ hout⟩
  · intro u w w' htext hknown
    have hsame := Opcode.ofOpcode?_eq_of_disassemble_eq htext hknown
    obtain ⟨i, hi⟩ : ∃ i, Instruction.ofOpcode? w = some i := by
      rw [← Option.ne_none_iff_exists', ne_eq, Instruction.ofOpcode?_eq_none_iff,
        ← Opcode.disassemble_eq_unknown_iff]
      exact hknown
    exact dispatch_congr u hi (hsame ▸ hi)

/-- Words with the same text need not be the same. -/
example : (Opcode.mk 0x5120).disassemble = (Opcode.mk 0x512F).disassemble := by decide

end Interpreter

end Chip8
