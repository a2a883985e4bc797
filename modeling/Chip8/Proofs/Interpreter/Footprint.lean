import Chip8.Proofs.Instruction.Footprint
import Chip8.Proofs.Interpreter.Restart

/-!
# Who may change what

A tick changes no part of the interpreter but those in the footprint of the word that it fetches
(`footprint_tick`), and an operation of the host only the part that it is for.  The number source is
drawn from once by every random instruction and by nothing else, so the numbers of a history are used in
order (`numbers_after`).  The main statement is `changes_confined`.
-/

namespace Chip8

/-- The source after a number of draws. -/
def NumberSource.skip {ρ : Type} [NumberSource ρ] (s : ρ) : Nat → ρ
  | 0 => s
  | n + 1 => skip (draw s).2 n

namespace NumberSource

variable {ρ : Type} [NumberSource ρ] (s : ρ)

theorem nth_eq_draw_skip (n : Nat) : nth s n = (draw (skip s n)).1 := by
  induction n generalizing s with
  | zero => rfl
  | succ n ih => exact ih (draw s).2

theorem skip_add (n k : Nat) : skip s (n + k) = skip (skip s n) k := by
  induction n generalizing s with
  | zero => rw [Nat.zero_add, skip]
  | succ n ih => rw [Nat.succ_add, skip, ih, skip]

end NumberSource

namespace Interpreter

open Instruction NumberSource

variable {ρ : Type} {s : Interpreter ρ} {w : Opcode}

/-- Whether the word under the program counter is a random instruction `Cxkk`. -/
def fetchesRandom (s : Interpreter ρ) : Bool :=
  match s.fetch with
  | .ok w => w.family.val == 0xC
  | .error _ => false

theorem fetchesRandom_iff (hw : s.fetch = .ok w) :
    s.fetchesRandom = true ↔ w.family.val = 0xC := by
  rw [fetchesRandom, hw]
  exact beq_iff_eq

variable [NumberSource ρ]

/-- How many random instructions a history executes. -/
def randomsIn (s : Interpreter ρ) : List Operation → Nat
  | [] => 0
  | op :: history =>
    (if op = .tick ∧ s.fetchesRandom then 1 else 0) + randomsIn (s.perform op).after history

/-! ### Ticks -/

/-- A tick changes nothing outside the machine but what was fetched, and in the machine it keeps to the
footprint of the word. -/
theorem footprint_tick (h : s.machine.WellFormed) (hw : s.fetch = .ok w) :
    s.tick.after = { s.fetched w with machine := s.tick.after.machine } ∧
      (s.fetched w).machine.Footprint s.dialect w s.tick.after.machine s.tick.fault := by
  obtain ⟨hm, -⟩ := wellFormed_fetched h hw
  cases hi : ofOpcode? w with
  | none =>
    rw [(tick_of_illegal hw hi).1]
    exact ⟨rfl, footprint_of_illegal _ (ofOpcode?_eq_none_iff.1 hi) _⟩
  | some i =>
    rw [(tick_of_instruction hw hi).1, (tick_of_instruction hw hi).2]
    exact ⟨rfl, footprint_execute _ (reads_of_ofOpcode? hi) hm.frame.grid hm.registers.i.1
      hm.registers.dt⟩

theorem numbers_tick (h : s.machine.WellFormed) :
    s.tick.after.machine.numbers = skip s.machine.numbers (if s.fetchesRandom then 1 else 0) := by
  cases hw : s.fetch with
  | error f =>
    rw [tick_of_error hw, fetchesRandom, hw]
    rfl
  | ok w =>
    rw [(footprint_tick h hw).2.numbers]
    by_cases hf : w.family.val = 0xC
    · rw [if_pos hf, if_pos ((fetchesRandom_iff hw).2 hf)]
      rfl
    · rw [if_neg hf, if_neg (mt (fetchesRandom_iff hw).1 hf)]
      rfl

/-! ### Histories -/

theorem numbers_perform (h : s.machine.WellFormed) (op : Operation) :
    (s.perform op).after.machine.numbers =
      skip s.machine.numbers (if op = .tick ∧ s.fetchesRandom then 1 else 0) := by
  by_cases ht : op = .tick
  · subst ht
    simp only [true_and]
    exact numbers_tick h
  · rw [if_neg fun hand => ht hand.1]
    by_cases hr : op = .reset
    · subst hr
      -- the parts are generalized, for the clearing must not be unfolded to compare the numbers
      obtain ⟨_, _, _, _, _, hm⟩ : ∃ memory registers stack frame keypad, s.reset =
          { s with
            machine := ⟨memory, registers, stack, frame, keypad, s.machine.numbers⟩
            dialect := s.chosen
            word := .ofInt 0
            fetchedFrom := programStart } :=
        ⟨_, _, _, _, _, rfl⟩
      show s.reset.machine.numbers = _
      rw [hm]
      rfl
    · obtain ⟨memory, registers, frame, keypad, dialect, ho⟩ := after_host_operation h hr ht
      rw [ho]
      rfl

/-- A history draws as many numbers as it executes random instructions. -/
theorem numbers_after (h : s.machine.WellFormed) (history : List Operation) :
    (s.after history).machine.numbers = skip s.machine.numbers (s.randomsIn history) := by
  induction history generalizing s with
  | nil => rfl
  | cons op history ih =>
    rw [after_cons, ih (wellFormed_perform s op h), numbers_perform h op, randomsIn, skip_add]

/-! ### Operations of the host -/

theorem byteAt_loadRom (h : s.machine.WellFormed) (rom : List UInt8) {a : Int} (ha : a < 0x200) :
    (s.perform (.loadRom rom)).after.machine.memory.byteAt a = s.machine.memory.byteAt a := by
  rw [after_loadRom h]
  split
  · exact Memory.byteAt_setBlock_of_outside _ (by rw [programStart]; omega)
  · rfl

theorem get_after_setKey (s : Interpreter ρ) {key : Int} (pressed : Bool) {k : Key}
    (hk : (k.val : Int) ≠ key) :
    (s.perform (.setKey key pressed)).after.machine.keypad.down.get k =
      s.machine.keypad.down.get k := by
  show (s.react (s.setKey key pressed)).after.machine.keypad.down.get k = _
  unfold setKey
  cases hset : s.machine.keypad.setKey key pressed with
  | error e => rfl
  | ok keypad => exact (Keypad.get_setKey hset k).trans (if_neg hk)

/-- After any history, a tick keeps to the footprint of the word it fetches, failed or not, the other
operations to theirs, and the random instructions take the numbers of the source in order. -/
theorem changes_confined (dialect : Dialect) (tracing : Bool) (numbers : ρ)
    (history : List Operation) :
    let start := new dialect tracing numbers
    let s := start.after history
    let m := s.machine
    (∀ f, s.fetch = .error f → s.tick.after = { s with fetchedFrom := m.registers.pc }) ∧
    (∀ w, s.fetch = .ok w →
      s.tick.after = { s.fetched w with machine := s.tick.after.machine } ∧
      (s.fetched w).machine.Footprint s.dialect w s.tick.after.machine s.tick.fault ∧
      (w.family.val = 0xC →
        s.tick.after.machine.registers.v.get w.x =
          UInt8.ofInt (nth numbers (start.randomsIn history)) &&& w.byte)) ∧
    (¬s.StoresIntoFont → ∀ a : Int, 0x50 ≤ a → a < 0xA0 →
      s.tick.after.machine.memory.byteAt a = m.memory.byteAt a) ∧
    (∀ rom, ∃ memory : Memory,
      (s.perform (.loadRom rom)).after = { s with machine := { m with memory } } ∧
      ∀ a : Int, a < 0x200 → memory.byteAt a = m.memory.byteAt a) ∧
    (s.perform .updateTimers).after = { s with machine := { m with
      registers := { m.registers with
        dt := countDown m.registers.dt
        st := countDown m.registers.st } } } ∧
    (∀ key pressed, ∃ keypad : Keypad,
      (s.perform (.setKey key pressed)).after = { s with machine := { m with keypad } } ∧
      ∀ k : Key, (k.val : Int) ≠ key → keypad.down.get k = m.keypad.down.get k) ∧
    (∀ switch on, ∃ d : Dialect,
      (s.perform (.setSwitch switch on)).after = { s with dialect := d } ∧
      ∀ other, other ≠ switch → d other = s.dialect other) ∧
    ∀ x y lit, ∃ frame : Frame,
      (s.perform (.setLit x y lit)).after = { s with machine := { m with frame } } := by
  intro start s m
  have hnew : start.machine.WellFormed := wellFormed_new dialect tracing numbers
  have hs : s.Reachable := ⟨dialect, tracing, numbers, history, rfl⟩
  have h : s.machine.WellFormed := hs.wellFormed
  refine ⟨?_, ?_, ?_, ?_, rfl, ?_, ?_, ?_⟩
  · intro f hw
    rw [tick_of_error hw]
  · intro w hw
    obtain ⟨hafter, hfoot⟩ := footprint_tick h hw
    refine ⟨hafter, hfoot, fun hf => ?_⟩
    have hnumbers : s.machine.numbers = skip numbers (start.randomsIn history) :=
      numbers_after hnew history
    rw [hfoot.random hf, nth_eq_draw_skip, ← hnumbers]
    rfl
  · exact fun hstore a hlo hhi => byteAt_tick_of_font h ⟨hlo, hhi⟩ hstore
  · intro rom
    refine ⟨(s.perform (.loadRom rom)).after.machine.memory, ?_, fun a ha => byteAt_loadRom h rom ha⟩
    rw [after_loadRom h]
    split <;> rfl
  · intro key pressed
    obtain ⟨keypad, hk⟩ := after_setKey s key pressed
    refine ⟨keypad, hk, fun k hne => ?_⟩
    have hget := get_after_setKey s pressed hne
    rwa [hk] at hget
  · intro switch on
    exact ⟨s.dialect.set switch on, rfl, fun other hne => Dialect.set_of_ne _ _ hne⟩
  · intro x y lit
    obtain ⟨frame, -, hl⟩ := after_setLit h x y lit
    exact ⟨frame, hl⟩

end Interpreter

end Chip8
