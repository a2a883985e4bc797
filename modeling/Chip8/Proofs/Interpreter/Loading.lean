import Chip8.Proofs.Instruction.Transfers
import Chip8.Proofs.Interpreter.Disassembly

/-!
# Loading a program

A program that fits between the program start and the end of memory is put there byte by byte, and
nothing else changes; a larger one is refused.  Every two neighbouring bytes of a loaded program, at an
even address or an odd one, are then fetched and listed as one word, high byte first
(`loaded_is_fetched`).
-/

namespace Chip8

namespace Interpreter

variable {ρ : Type} {s : Interpreter ρ}

/-- The word at an address is made of the byte there and the next one. -/
theorem wordAt_of_le {address : Int} (h₀ : 0 ≤ address)
    (h : address + 2 ≤ s.machine.memory.size) :
    s.wordAt address =
      .ok (.ofBytes [s.machine.memory.byteAt address, s.machine.memory.byteAt (address + 1)]) := by
  rw [wordAt, Memory.readBlock_pair _ h₀ h]
  rfl

/-- Where a block lies in memory, the words are made of its bytes. -/
theorem wordAt_of_rewritten {m : Memory} {loc : Int} {block : List UInt8} (h₀ : 0 ≤ loc)
    (hsize : loc + block.length ≤ m.size) (h : m.Rewritten loc block s.machine.memory) {k : Nat}
    (hk : k + 1 < block.length) :
    s.wordAt (loc + k) = .ok (.ofBytes [block.getD k 0, block.getD (k + 1) 0]) := by
  have hbyte := h.inside k (by omega)
  have hnext := h.inside (k + 1) hk
  have haddress : loc + k + 1 = loc + ((k + 1 : Nat) : Int) := by omega
  rw [wordAt_of_le (by omega) (by rw [h.size_eq]; omega), hbyte, haddress, hnext]

variable [NumberSource ρ]

theorem perform_loadRom_of_lt {rom : List UInt8} (hr : 3584 < rom.length) :
    s.perform (.loadRom rom) = ⟨s, none, some (.romTooLarge rom.length)⟩ := by
  rw [perform, loadRom_of_lt hr]
  rfl

theorem perform_loadRom_of_le (h : s.machine.WellFormed) {rom : List UInt8}
    (hr : rom.length ≤ 3584) :
    ∃ memory : Memory,
      s.perform (.loadRom rom) = ⟨{ s with machine := { s.machine with memory } }, none, none⟩ ∧
      s.machine.memory.Rewritten 0x200 rom memory := by
  have hsize : (programStart : Int) + rom.length ≤ s.machine.memory.size := by
    rw [h.memory_size, programStart]
    omega
  refine ⟨s.machine.memory.setBlock programStart rom, ?_, ?_⟩
  · rw [perform, loadRom_of_le h hr]
    rfl
  · exact Memory.rewritten_setBlock s.machine.memory (by decide) hsize

/-- After any history, a program of at most 3584 bytes is loaded, and wherever in it the counter is put,
the two bytes from there on are fetched as one word; a longer one is refused and nothing changes. -/
theorem loaded_is_fetched (dialect : Dialect) (tracing : Bool) (numbers : ρ)
    (history : List Operation) (rom : List UInt8) :
    let s := (new dialect tracing numbers).after history
    (3584 < rom.length →
      s.perform (.loadRom rom) = ⟨s, none, some (.romTooLarge rom.length)⟩) ∧
    (rom.length ≤ 3584 → ∃ memory : Memory,
      let t : Interpreter ρ := { s with machine := { s.machine with memory } }
      s.perform (.loadRom rom) = ⟨t, none, none⟩ ∧
      memory.size = 4096 ∧
      (∀ k < rom.length, memory.byteAt (0x200 + (k : Int)) = rom.getD k 0) ∧
      (∀ a : Int, 0 ≤ a → a < 0x200 ∨ 0x200 + rom.length ≤ a →
        memory.byteAt a = s.machine.memory.byteAt a) ∧
      ∀ k : Nat, k + 1 < rom.length → ∃ w : Opcode,
        w.full = 256 * (rom.getD k 0).toNat + (rom.getD (k + 1) 0).toNat ∧
        (t.withPc (0x200 + k)).fetch = .ok w ∧
        t.disassemble (0x200 + k) = .ok w.disassemble) := by
  intro s
  have hs : s.Reachable := ⟨dialect, tracing, numbers, history, rfl⟩
  have h : s.machine.WellFormed := hs.wellFormed
  refine ⟨perform_loadRom_of_lt, fun hr => ?_⟩
  obtain ⟨memory, hload, hrewritten⟩ := perform_loadRom_of_le h hr
  refine ⟨memory, hload, hrewritten.size_eq.trans h.memory_size, hrewritten.inside,
    hrewritten.outside, fun k hk => ?_⟩
  let t : Interpreter ρ := { s with machine := { s.machine with memory } }
  have hsize : (0x200 : Int) + rom.length ≤ s.machine.memory.size := by
    rw [h.memory_size]
    omega
  have hword : t.wordAt (0x200 + k) = .ok (.ofBytes [rom.getD k 0, rom.getD (k + 1) 0]) :=
    wordAt_of_rewritten (s := t) (by decide) hsize hrewritten hk
  exact ⟨_, Opcode.full_ofBytes_pair _ _, hword, disassemble_of_ok hword⟩

end Interpreter

end Chip8
