import Chip8.Proofs.Instruction.Decoding
import Chip8.Proofs.Interpreter.Bounds

/-!
# When a tick fails, and what it leaves

A tick fails at the fetch, on an illegal word, on a call at depth 16, on a return at depth 0, or on a
block or sprite that runs past the end of memory, and in no other case (`tick_failure`).  After a
failed tick the program counter stands behind the word and the rest of the machine is as it was, but
for the rows of a sprite that were read before the first one outside memory.
-/

namespace Chip8

namespace Opcode

/-- Whether an instruction word reaches past `0xFFF` from the index `i` on: `Fx33` with its three bytes,
`Fx55` and `Fx65` with those up to `i + x`, or `Dxyn` with its `n` rows. -/
def Overruns (c : Opcode) (i : Int) : Prop :=
  (c.HasByte 0xF 0x33 ∧ 0xFFF < i + 2) ∨
  ((c.HasByte 0xF 0x55 ∨ c.HasByte 0xF 0x65) ∧ 0xFFF < i + c.x.val) ∨
  (c.family.val = 0xD ∧ 1 ≤ c.nibble.val ∧ 0xFFF < i + c.nibble.val - 1)

end Opcode

namespace Instruction

variable {c : Opcode}

theorem overruns_iff {i : Int} :
    c.Overruns i ↔ ∃ instr, ofOpcode? c = some instr ∧ instr.span ≠ 0 ∧ 4096 < i + instr.span := by
  constructor
  · rintro (⟨hb, hi⟩ | ⟨hb | hb, hi⟩ | ⟨hf, hn, hi⟩)
    · exact ⟨storeDigits c.x, ofOpcode?_of_reads ⟨hb, rfl⟩, by simp only [span]; omega⟩
    · exact ⟨store c.x, ofOpcode?_of_reads ⟨hb, rfl⟩, by simp only [span]; omega⟩
    · exact ⟨load c.x, ofOpcode?_of_reads ⟨hb, rfl⟩, by simp only [span]; omega⟩
    · exact ⟨_, ofOpcode?_eq_draw_iff.2 hf, by simp only [span]; omega⟩
  · rintro ⟨instr, hr, hs, hi⟩
    replace hr := reads_of_ofOpcode? hr
    cases instr with
    | storeDigits x => exact Or.inl ⟨hr.1, by simp only [span] at hi; omega⟩
    | store x =>
      obtain ⟨hb, rfl⟩ := hr
      exact Or.inr (Or.inl ⟨Or.inl hb, by simp only [span] at hi; omega⟩)
    | load x =>
      obtain ⟨hb, rfl⟩ := hr
      exact Or.inr (Or.inl ⟨Or.inr hb, by simp only [span] at hi; omega⟩)
    | draw x y n =>
      obtain ⟨hf, -, -, rfl⟩ := hr
      simp only [span] at hs hi
      exact Or.inr (Or.inr ⟨hf, by omega, by omega⟩)
    | _ => exact absurd rfl hs

end Instruction

namespace Interpreter

open Instruction

variable {ρ : Type} {s : Interpreter ρ} {w : Opcode}

/-- The positions of the set bits of those rows of the sprite of a word `Dxyn` that lie in memory. -/
def reachedCells (s : Interpreter ρ) (w : Opcode) : List (Int × Int) :=
  let r := s.machine.registers
  spriteCells s.machine.memory r.i ((r.v.get w.x).toNat % 64) ((r.v.get w.y).toNat % 32)
    ((List.range w.nibble.val).filter fun (row : Nat) => decide (r.i + row ≤ 0xFFF))

theorem drawnCells_fetched (h : s.machine.WellFormed) :
    drawnCells (s.fetched w).machine w.x w.y w.nibble.val = s.reachedCells w := by
  have hrows (i : Int) : readableRows s.machine.memory i w.nibble.val =
      (List.range w.nibble.val).filter fun (row : Nat) => decide (i + row ≤ 0xFFF) := by
    apply List.filter_congr
    intro row _
    rw [h.memory_size]
    exact decide_eq_decide.2 (by omega)
  simp only [drawnCells, fetched, hrows, origin, h.frame.width_eq, h.frame.height_eq, reachedCells]

variable [NumberSource ρ]

theorem fault_tick (h : s.machine.WellFormed) (hw : s.fetch = .ok w) :
    s.tick.fault =
      match ofOpcode? w with
      | none => some (s.fetched w).illegalFault
      | some i => i.failure? (s.fetched w).machine := by
  obtain ⟨hm, -⟩ := wellFormed_fetched h hw
  cases hi : ofOpcode? w with
  | none => exact (tick_of_illegal hw hi).2
  | some i =>
    rw [(tick_of_instruction hw hi).2]
    exact fault?_execute s.dialect hm.frame.grid hm.registers.i.1 hm.registers.dt i

/-- What a tick does if it fetches an instruction that is not refused and does not draw. -/
theorem tick_of_accepted (h : s.machine.WellFormed) (hw : s.fetch = .ok w) {i : Instruction}
    (hi : ofOpcode? w = some i) (hd : i.isDraw = false)
    (hnone : i.failure? (s.fetched w).machine = none) :
    s.tick.fault = none ∧ s.tick.after =
      { s.fetched w with machine := i.machineAfter s.dialect (s.fetched w).machine } := by
  obtain ⟨hm, -⟩ := wellFormed_fetched h hw
  have hdt := hm.registers.dt
  have hend := execute_of_accepted s.dialect (s.fetched w).machine hd hm.registers.i.1
    ⟨hdt.1, by omega⟩ hnone
  obtain ⟨hafter, hfault⟩ := tick_of_instruction hw hi
  rw [hafter, hfault, (Action.outcome_of_ok hend).1, (Action.outcome_of_ok hend).2]
  exact ⟨rfl, rfl⟩

theorem fault_tick_eq_illegal_iff (h : s.machine.WellFormed) (hw : s.fetch = .ok w) (w' : Opcode)
    (a : Int) :
    (∃ report, s.tick.fault = some (.illegal w' a report)) ↔
      w.IsIllegal ∧ w' = w ∧ a = s.machine.registers.pc := by
  rw [fault_tick h hw, ← ofOpcode?_eq_none_iff]
  cases hi : ofOpcode? w with
  | none => simp [illegalFault, fetched, eq_comm]
  | some i =>
    refine iff_of_false ?_ (by simp)
    rintro ⟨report, hf⟩
    rcases failure?_cases hf with hf | hf | ⟨_, _, _, hf⟩ <;> cases hf

theorem fault_tick_eq_stackOverflow_iff (h : s.machine.WellFormed) (hw : s.fetch = .ok w) :
    s.tick.fault = some .stackOverflow ↔ w.family.val = 2 ∧ s.machine.stack.depth = 16 := by
  have hcap : s.machine.stack.live.length + s.machine.stack.spare.length = 16 := h.stack.capacity_eq
  have hfull : s.machine.stack.spare = [] ↔ s.machine.stack.depth = 16 := by
    rw [← List.length_eq_zero_iff, CallStack.depth]
    omega
  rw [fault_tick h hw, ← ofOpcode?_eq_call_iff]
  cases hi : ofOpcode? w with
  | none => simp [illegalFault]
  | some i =>
    refine failure?_eq_stackOverflow_iff.trans ?_
    rw [← hfull]
    simp [fetched]

theorem fault_tick_eq_stackUnderflow_iff (h : s.machine.WellFormed) (hw : s.fetch = .ok w) :
    s.tick.fault = some .stackUnderflow ↔ w.HasByte 0x0 0xEE ∧ s.machine.stack.depth = 0 := by
  have hempty : s.machine.stack.live = [] ↔ s.machine.stack.depth = 0 := List.length_eq_zero_iff.symm
  rw [fault_tick h hw, ← ofOpcode?_eq_ret_iff]
  cases hi : ofOpcode? w with
  | none => simp [illegalFault]
  | some i =>
    refine failure?_eq_stackUnderflow_iff.trans ?_
    rw [← hempty]
    simp [fetched]

theorem fault_tick_eq_outOfRange_iff (h : s.machine.WellFormed) (hw : s.fetch = .ok w) :
    (∃ first last top, s.tick.fault = some (.outOfRange first last top)) ↔
      w.Overruns s.machine.registers.i := by
  rw [fault_tick h hw, overruns_iff]
  cases hi : ofOpcode? w with
  | none => simp [illegalFault]
  | some i =>
    refine failure?_eq_outOfRange_iff.trans ?_
    simp [fetched, h.memory_size]

theorem fault_tick_cases (h : s.machine.WellFormed) (hw : s.fetch = .ok w) {f : Fault}
    (hf : s.tick.fault = some f) :
    (∃ report, f = .illegal w s.machine.registers.pc report) ∨ f = .stackUnderflow ∨
      f = .stackOverflow ∨ ∃ first last top, f = .outOfRange first last top := by
  rw [fault_tick h hw] at hf
  cases hi : ofOpcode? w with
  | none =>
    rw [hi] at hf
    cases hf
    exact Or.inl ⟨_, rfl⟩
  | some i =>
    rw [hi] at hf
    exact Or.inr (failure?_cases hf)

theorem fault_tick_eq_none_iff (h : s.machine.WellFormed) (hw : s.fetch = .ok w) :
    s.tick.fault = none ↔ ¬w.IsIllegal ∧ ¬(w.family.val = 2 ∧ s.machine.stack.depth = 16) ∧
      ¬(w.HasByte 0x0 0xEE ∧ s.machine.stack.depth = 0) ∧ ¬w.Overruns s.machine.registers.i := by
  rw [← fault_tick_eq_stackOverflow_iff h hw, ← fault_tick_eq_stackUnderflow_iff h hw,
    ← fault_tick_eq_outOfRange_iff h hw]
  have hillegal : w.IsIllegal ↔
      ∃ report, s.tick.fault = some (.illegal w s.machine.registers.pc report) := by
    simp [fault_tick_eq_illegal_iff h hw]
  rw [hillegal]
  constructor
  · intro hnone
    simp [hnone]
  · rintro ⟨hi, ho, hu, hr⟩
    cases hf : s.tick.fault with
    | none => rfl
    | some f =>
      rcases fault_tick_cases h hw hf with ⟨report, rfl⟩ | rfl | rfl | ⟨a, b, c, rfl⟩
      · exact absurd ⟨report, hf⟩ hi
      · exact absurd hf hu
      · exact absurd hf ho
      · exact absurd ⟨a, b, c, hf⟩ hr

/-- A failed tick leaves everything but the counter alone, unless it draws. -/
theorem after_failed_tick (h : s.machine.WellFormed) (hw : s.fetch = .ok w)
    (hf : s.tick.fault ≠ none) (hd : w.family.val ≠ 0xD) : s.tick.after = s.fetched w := by
  obtain ⟨hm, -⟩ := wellFormed_fetched h hw
  cases hi : ofOpcode? w with
  | none => exact (tick_of_illegal hw hi).1
  | some i =>
    have hfault := fault_tick h hw
    simp only [hi] at hfault
    rw [(tick_of_instruction hw hi).1]
    cases outcome s.dialect hm.frame.grid hm.registers.i.1 hm.registers.dt i with
    | failed f _ _ he => rw [(Action.outcome_of_error he).1]
    | done _ hnone _ => exact absurd (hfault.trans hnone) hf
    | drawn _ _ _ _ _ _ _ _ hnone _ => exact absurd (hfault.trans hnone) hf
    | cut x y n _ _ hdraw _ _ _ _ =>
      subst hdraw
      exact absurd (reads_of_ofOpcode? hi).1 hd

/-- A failed tick that draws leaves everything but the counter and the frame alone. -/
theorem after_failed_draw (h : s.machine.WellFormed) (hw : s.fetch = .ok w)
    (hf : s.tick.fault ≠ none) (hd : w.family.val = 0xD) :
    ∃ frame, Frame.Toggled (s.dialect .wrap) (s.reachedCells w) s.machine.frame frame ∧
      s.tick.after =
        { s.fetched w with machine := { (s.fetched w).machine with frame } } := by
  obtain ⟨hm, -⟩ := wellFormed_fetched h hw
  have hi := ofOpcode?_eq_draw_iff.2 hd
  have hfault := fault_tick h hw
  simp only [hi] at hfault
  rw [(tick_of_instruction hw hi).1]
  cases outcome s.dialect hm.frame.grid hm.registers.i.1 hm.registers.dt (draw w.x w.y w.nibble) with
  | failed _ hdraw _ _ => cases hdraw
  | done hdraw _ _ => cases hdraw
  | drawn _ _ _ _ _ _ _ _ hnone _ => exact absurd (hfault.trans hnone) hf
  | cut x y n f g hdraw _ ht _ he =>
    cases hdraw
    rw [drawnCells_fetched h] at ht
    exact ⟨g, ht, by rw [(Action.outcome_of_error he).1]⟩

/-- Exactly when a tick of a reachable state fails, with which fault, and what it leaves. -/
theorem tick_failure (dialect : Dialect) (tracing : Bool) (numbers : ρ)
    (history : List Operation) :
    let s := (new dialect tracing numbers).after history
    let pc := s.machine.registers.pc
    (0xFFE < pc →
      s.tick = ⟨{ s with fetchedFrom := pc }, none, some (.outOfRange pc (pc + 1) 0xFFF)⟩) ∧
    (pc ≤ 0xFFE → ∃ w, s.fetch = .ok w ∧
      (∀ w' a, (∃ report, s.tick.fault = some (.illegal w' a report)) ↔
        w.IsIllegal ∧ w' = w ∧ a = pc) ∧
      (s.tick.fault = some .stackOverflow ↔ w.family.val = 2 ∧ s.machine.stack.depth = 16) ∧
      (s.tick.fault = some .stackUnderflow ↔ w.HasByte 0x0 0xEE ∧ s.machine.stack.depth = 0) ∧
      ((∃ first last top, s.tick.fault = some (.outOfRange first last top)) ↔
        w.Overruns s.machine.registers.i) ∧
      (s.tick.fault = none ↔ ¬w.IsIllegal ∧ ¬(w.family.val = 2 ∧ s.machine.stack.depth = 16) ∧
        ¬(w.HasByte 0x0 0xEE ∧ s.machine.stack.depth = 0) ∧ ¬w.Overruns s.machine.registers.i) ∧
      (s.tick.fault ≠ none →
        ∃ frame, s.tick.after = { s with
            machine := { s.machine with
              frame
              registers := { s.machine.registers with pc := pc + 2 } }
            word := w
            fetchedFrom := pc } ∧
          if w.family.val = 0xD then
            Frame.Toggled (s.dialect .wrap) (s.reachedCells w) s.machine.frame frame
          else frame = s.machine.frame)) := by
  intro s pc
  have hs : s.Reachable := ⟨dialect, tracing, numbers, history, rfl⟩
  have h : s.machine.WellFormed := hs.wellFormed
  rcases fetch_cases h with ⟨hpc, w, hw⟩ | ⟨hpc, hw⟩
  · refine ⟨fun hpc' => absurd hpc' (Int.not_lt.2 hpc), fun _ => ⟨w, hw,
      fault_tick_eq_illegal_iff h hw, fault_tick_eq_stackOverflow_iff h hw,
      fault_tick_eq_stackUnderflow_iff h hw, fault_tick_eq_outOfRange_iff h hw,
      fault_tick_eq_none_iff h hw, ?_⟩⟩
    intro hf
    by_cases hd : w.family.val = 0xD
    · obtain ⟨frame, ht, hafter⟩ := after_failed_draw h hw hf hd
      exact ⟨frame, hafter, by rw [if_pos hd]; exact ht⟩
    · exact ⟨s.machine.frame, after_failed_tick h hw hf hd, by rw [if_neg hd]⟩
  · exact ⟨fun _ => tick_of_error hw, fun hpc' => absurd hpc (Int.not_lt.2 hpc')⟩

end Interpreter

end Chip8
