import Chip8.Proofs.Instruction.Decoding
import Chip8.Proofs.Interpreter.Bounds

/-!
# What a reset restores

A reset gives back a new interpreter of the dialect chosen at the start, but for the number source and
for the eighty bytes of the font, which it leaves as they are (`reset_after`).  Among all operations
only a tick of `Fx33` or `Fx55` can have changed these bytes (`byteAt_perform_of_font`).
-/

namespace Chip8

/-- Whether an address lies in the font. -/
def InFont (a : Int) : Prop := 0x50 ≤ a ∧ a < 0xA0

instance (a : Int) : Decidable (InFont a) := inferInstanceAs (Decidable (0x50 ≤ a ∧ a < 0xA0))

namespace Interpreter

variable {ρ : Type} {s : Interpreter ρ} {a : Int}

/-! ### Memory after a reset -/

theorem byteAt_new (dialect : Dialect) (tracing : Bool) (numbers : ρ) :
    (new dialect tracing numbers).machine.memory.byteAt a =
      if InFont a then font.getD (a - 0x50).toNat 0 else 0 := by
  have hlen : font.length = 80 := rfl
  simp only [new, Memory.byteAt_setBlock, Memory.byteAt_zeros, Memory.size_zeros, hlen, fontStart,
    memorySize]
  by_cases ha : InFont a
  · have hlo : 0x50 ≤ a := ha.1
    have hhi : a < 0xA0 := ha.2
    rw [if_pos ha, if_pos (by omega), show a.toNat - 80 = (a - 0x50).toNat by omega]
  · have hout : ¬(0x50 ≤ a ∧ a < 0xA0) := ha
    rw [if_neg ha, if_neg (by omega)]

/-- A reset clears every byte outside the font and no byte of it. -/
theorem byteAt_reset (h : s.machine.WellFormed) (h₀ : 0 ≤ a) (hlt : a < 4096) :
    s.reset.machine.memory.byteAt a = if InFont a then s.machine.memory.byteAt a else 0 := by
  simp only [reset, clearAroundFont, Memory.byteAt_setBlock_replicate, Memory.size_setBlock,
    h.memory_size, fontStart, fontEnd, memorySize]
  by_cases ha : InFont a
  · have hlo : 0x50 ≤ a := ha.1
    have hhi : a < 0xA0 := ha.2
    rw [if_pos ha, if_neg (by omega), if_neg (by omega)]
  · have hout : ¬(0x50 ≤ a ∧ a < 0xA0) := ha
    rw [if_neg ha]
    by_cases hlow : a < 0x50
    · rw [if_neg (by omega), if_pos (by omega)]
    · rw [if_pos (by omega)]

theorem reset_eq_new (h : s.machine.WellFormed) :
    s.reset =
      { new s.chosen s.tracing s.machine.numbers with
        machine := { (new s.chosen s.tracing s.machine.numbers).machine with
          memory := s.reset.machine.memory } } := by
  have hstack : s.machine.stack.clear = .empty CallStack.standardCapacity := by
    rw [CallStack.clear, h.stack.capacity_eq]
    rfl
  simp only [reset, new, hstack, Frame.clear_eq_standard h.frame]

/-- A reset gives a new interpreter iff it finds the font as it was at the start. -/
theorem reset_eq_new_iff (h : s.machine.WellFormed) :
    s.reset = new s.chosen s.tracing s.machine.numbers ↔
      ∀ a, InFont a → s.machine.memory.byteAt a = font.getD (a - 0x50).toNat 0 := by
  constructor
  · intro hr a ha
    have hlo : 0x50 ≤ a := ha.1
    have hhi : a < 0xA0 := ha.2
    have hb := byteAt_reset h (a := a) (by omega) (by omega)
    rwa [hr, byteAt_new, if_pos ha, if_pos ha, eq_comm] at hb
  · intro hfont
    have hmem : s.reset.machine.memory =
        (new s.chosen s.tracing s.machine.numbers).machine.memory := by
      apply Memory.ext_byteAt
      · rw [(wellFormed_reset h).memory_size, (wellFormed_new _ _ _).memory_size]
      · intro n hn
        rw [(wellFormed_reset h).memory_size] at hn
        rw [byteAt_reset h (by omega) (by omega), byteAt_new]
        split
        · next ha => exact hfont n ha
        · rfl
    rw [reset_eq_new h, hmem]

/-! ### The font in a history -/

/-- Whether a tick would store a byte into the font: the word under the program counter is `Fx33` or
`Fx55`, and one of the bytes from the index register on that it writes lies in the font. -/
def StoresIntoFont (s : Interpreter ρ) : Prop :=
  ∃ w, s.fetch = .ok w ∧ s.machine.registers.i < 0xA0 ∧
    ((w.HasByte 0xF 0x33 ∧ 0x50 ≤ s.machine.registers.i + 2) ∨
      (w.HasByte 0xF 0x55 ∧ 0x50 ≤ s.machine.registers.i + w.x.val))

variable [NumberSource ρ]

theorem byteAt_tick_of_font (h : s.machine.WellFormed) (ha : InFont a)
    (hs : ¬s.StoresIntoFont) :
    s.tick.after.machine.memory.byteAt a = s.machine.memory.byteAt a := by
  have hlo : 0x50 ≤ a := ha.1
  have hhi : a < 0xA0 := ha.2
  cases tick_cases s with
  | unfetched f hw ends => rw [ends]
  | illegal w hw hi hafter =>
    rw [hafter]
    rfl
  | executed w i hw hi hafter =>
    obtain ⟨hm, -⟩ := wellFormed_fetched h hw
    have hr := Instruction.reads_of_ofOpcode? hi
    simp only [StoresIntoFont, not_exists, not_and, not_or] at hs
    specialize hs w hw
    -- the block written, if there is one, does not reach into the font
    have hblock : a < s.machine.registers.i ∨
        s.machine.registers.i + (i.blockWritten s.machine.registers).length ≤ a := by
      cases i with
      | storeDigits x =>
        have hlen : (Instruction.digits (s.machine.registers.v.get x)).length = 3 := rfl
        have hout := fun hlt => (hs hlt).1 hr.1
        simp only [Instruction.blockWritten, hlen]
        omega
      | store x =>
        obtain ⟨hb, rfl⟩ := hr
        have hout := fun hlt => (hs hlt).2 hb
        simp only [Instruction.blockWritten, Instruction.length_stored]
        omega
      | _ =>
        simp only [Instruction.blockWritten, List.length_nil]
        omega
    rw [hafter]
    exact Instruction.byteAt_left s.dialect hm.frame.grid hm.registers.i.1 hm.registers.dt
      (by omega) hblock

/-- No operation changes the font but a tick that stores into it. -/
theorem byteAt_perform_of_font (h : s.machine.WellFormed) (ha : InFont a) (op : Operation)
    (hs : op = .tick → ¬s.StoresIntoFont) :
    (s.perform op).after.machine.memory.byteAt a = s.machine.memory.byteAt a := by
  have hlo : 0x50 ≤ a := ha.1
  have hhi : a < 0xA0 := ha.2
  cases op with
  | reset => exact (byteAt_reset h (by omega) (by omega)).trans (if_pos ha)
  | tick => exact byteAt_tick_of_font h ha (hs rfl)
  | updateTimers => rfl
  | setSwitch => rfl
  | loadRom rom =>
    rw [after_loadRom h]
    split
    · exact Memory.byteAt_setBlock_of_outside _ (by rw [programStart]; omega)
    · rfl
  | setKey key pressed =>
    obtain ⟨keypad, hk⟩ := after_setKey s key pressed
    rw [hk]
  | setLit x y lit =>
    obtain ⟨frame, -, hl⟩ := after_setLit h x y lit
    rw [hl]

theorem byteAt_after_of_font (h : s.machine.WellFormed) (ha : InFont a) (history : List Operation)
    (hs : s.AtTicks (¬·.StoresIntoFont) history) :
    (s.after history).machine.memory.byteAt a = s.machine.memory.byteAt a := by
  induction history generalizing s with
  | nil => rfl
  | cons op history ih =>
    obtain ⟨hnow, hlater⟩ := atTicks_cons.1 hs
    rw [after_cons, ih (wellFormed_perform s op h) hlater, byteAt_perform_of_font h ha op hnow]

/-! ### Resetting -/

theorem chosen_tick (s : Interpreter ρ) :
    s.tick.after.chosen = s.chosen ∧ s.tick.after.tracing = s.tracing := by
  cases tick_cases s with
  | unfetched f hw ends =>
    rw [ends]
    exact ⟨rfl, rfl⟩
  | illegal w hw hi hafter =>
    rw [hafter]
    exact ⟨rfl, rfl⟩
  | executed w i hw hi hafter =>
    rw [hafter]
    exact ⟨rfl, rfl⟩

theorem chosen_perform (h : s.machine.WellFormed) (op : Operation) :
    (s.perform op).after.chosen = s.chosen ∧ (s.perform op).after.tracing = s.tracing := by
  by_cases hr : op = .reset
  · -- the machine is generalized, for it must not be unfolded to compare the other fields
    obtain ⟨m, hm⟩ : ∃ m, s.reset =
        { s with machine := m, dialect := s.chosen, word := .ofInt 0, fetchedFrom := programStart } :=
      ⟨_, rfl⟩
    subst hr
    show s.reset.chosen = s.chosen ∧ s.reset.tracing = s.tracing
    rw [hm]
    exact ⟨rfl, rfl⟩
  · by_cases ht : op = .tick
    · subst ht
      exact chosen_tick s
    · obtain ⟨memory, registers, frame, keypad, dialect, ho⟩ := after_host_operation h hr ht
      rw [ho]
      exact ⟨rfl, rfl⟩

/-- No history changes the dialect that a reset returns to, nor tracing. -/
theorem chosen_after (h : s.machine.WellFormed) (history : List Operation) :
    (s.after history).chosen = s.chosen ∧ (s.after history).tracing = s.tracing := by
  induction history generalizing s with
  | nil => exact ⟨rfl, rfl⟩
  | cons op history ih =>
    obtain ⟨hchosen, htracing⟩ := ih (wellFormed_perform s op h)
    exact ⟨hchosen.trans (chosen_perform h op).1, htracing.trans (chosen_perform h op).2⟩

/-- After any history, a reset gives a new interpreter of the same dialect, with the number source where
it is, but for the font, which is left as the history left it. -/
theorem reset_after (dialect : Dialect) (tracing : Bool) (numbers : ρ) (history : List Operation) :
    let s := (new dialect tracing numbers).after history
    let fresh := new dialect tracing s.machine.numbers
    s.reset =
        { fresh with machine := { fresh.machine with memory := s.reset.machine.memory } } ∧
      s.reset.machine.memory.size = 4096 ∧
      (∀ a : Int, 0 ≤ a → a < 4096 → s.reset.machine.memory.byteAt a =
        if 0x50 ≤ a ∧ a < 0xA0 then s.machine.memory.byteAt a else 0) ∧
      (s.reset = fresh ↔
        ∀ a : Int, 0x50 ≤ a ∧ a < 0xA0 →
          s.machine.memory.byteAt a = font.getD (a - 0x50).toNat 0) ∧
      ((∀ before rest, history = before ++ .tick :: rest →
          ¬((new dialect tracing numbers).after before).StoresIntoFont) →
        s.reset = fresh) := by
  intro s fresh
  have hnew := wellFormed_new dialect tracing numbers
  have hs : s.Reachable := ⟨dialect, tracing, numbers, history, rfl⟩
  have h : s.machine.WellFormed := hs.wellFormed
  have hfresh : new s.chosen s.tracing s.machine.numbers = fresh := by
    obtain ⟨hchosen, htracing⟩ := chosen_after hnew history
    rw [show s.chosen = dialect from hchosen, show s.tracing = tracing from htracing]
  have heq := reset_eq_new h
  have hiff := reset_eq_new_iff h
  rw [hfresh] at heq hiff
  refine ⟨heq, (wellFormed_reset h).memory_size, fun a => byteAt_reset h, hiff, ?_⟩
  intro hstores
  apply hiff.2
  intro a ha
  rw [byteAt_after_of_font hnew ha history hstores, byteAt_new, if_pos ha]

/-- A program that writes zeros over the first glyph: a reset does not bring the glyph back. -/
theorem reset_ne_new_of_store :
    let s := (new Dialect.modern false (Cycle.mk [0] 0)).after
      [.loadRom [0xA0, 0x50, 0xF0, 0x55], .tick, .tick]
    s.reset.machine.memory.byteAt 0x50 = 0 ∧
      (new Dialect.modern false s.machine.numbers).machine.memory.byteAt 0x50 = 0xF0 ∧
      s.reset ≠ new Dialect.modern false s.machine.numbers := by
  intro s
  have hs : s.Reachable := ⟨Dialect.modern, false, ⟨[0], 0⟩, _, rfl⟩
  have hzero : s.machine.memory.byteAt 0x50 = 0 := by decide +kernel
  have hreset : s.reset.machine.memory.byteAt 0x50 = 0 := by
    rw [byteAt_reset hs.wellFormed (by decide) (by decide), hzero, ite_self]
  have hglyph : (new Dialect.modern false s.machine.numbers).machine.memory.byteAt 0x50 = 0xF0 := by
    rw [byteAt_new]
    rfl
  refine ⟨hreset, hglyph, ?_⟩
  intro heq
  rw [heq, hglyph] at hreset
  cases hreset

end Interpreter

end Chip8
