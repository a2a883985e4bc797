import Chip8.Proofs.Instruction.Footprint

/-!
# Which instructions a switch belongs to

An instruction consults at most one switch of the dialect (`switch?`), and its word shows which
(`consults_iff`).  Dialects that agree on it make the instruction the same computation
(`execute_congr`).  Otherwise the instruction still fails alike, and it leaves machines that agree but
for the few parts that the switch decides about (`Machine.SameBut`, `sameBut_execute`).
-/

namespace Chip8

/-- Whether a word is one of those that a switch belongs to. -/
def Opcode.Consults (c : Opcode) : Switch → Prop
  | .shift => c.family.val = 0x8 ∧ c.nibble.val ∈ [0x6, 0xE]
  | .load => c.HasByte 0xF 0x55 ∨ c.HasByte 0xF 0x65
  | .wrap => c.family.val = 0xD
  | .logic => c.family.val = 0x8 ∧ c.nibble.val ∈ [0x1, 0x2, 0x3]
  | .jump => c.family.val = 0xB
  | .indexOverflow => c.HasByte 0xF 0x1E

variable {ρ : Type}

/-- What two machines share after one instruction, which consults the switch `q` and names the register
`x`, in two dialects. -/
structure Machine.SameBut (q : Switch) (x : Register) (m m' : Machine ρ) : Prop where
  memory : m'.memory = m.memory
  stack : m'.stack = m.stack
  keypad : m'.keypad = m.keypad
  numbers : m'.numbers = m.numbers
  delay : m'.registers.dt = m.registers.dt
  sound : m'.registers.st = m.registers.st
  frame : m'.frame ≠ m.frame → q = .wrap
  index : m'.registers.i ≠ m.registers.i → q = .load
  counter : m'.registers.pc ≠ m.registers.pc → q = .jump
  v : ∀ k, m'.registers.v.get k ≠ m.registers.v.get k →
    (k = x ∧ q = .shift) ∨ (k = Register.flag ∧ q ∈ [.shift, .wrap, .logic, .indexOverflow])

theorem Registers.get_setFlag?_of_ne (r : Registers) (flag : Option Bool) {k : Register}
    (hk : k ≠ .flag) : (r.setFlag? flag).v.get k = r.v.get k := by
  cases flag with
  | none => rfl
  | some on => exact (get_setV r .flag _ k).trans (if_neg hk)

namespace Instruction

open Opcode

variable {d d' : Dialect} {m : Machine ρ} {c : Opcode} {i : Instruction} {q : Switch}

/-- The switch that an instruction consults. -/
def switch? : Instruction → Option Switch
  | alu op _ _ => if op.isShift then some .shift else if op.isBitwise then some .logic else none
  | store _ => some .load
  | load _ => some .load
  | draw _ _ _ => some .wrap
  | jumpPlus _ => some .jump
  | addIndex _ => some .indexOverflow
  | _ => none

/-- Every word that a switch belongs to is an instruction. -/
theorem reads_of_consults (h : c.Consults q) : ∃ i, c.Reads i ∧ i.switch? = some q := by
  cases q with
  | shift =>
    obtain ⟨hf, hn⟩ := h
    simp only [List.mem_cons, List.not_mem_nil, or_false] at hn
    rcases hn with hn | hn
    · exact ⟨alu .shiftRight c.x c.y, ⟨hf, hn, rfl, rfl⟩, rfl⟩
    · exact ⟨alu .shiftLeft c.x c.y, ⟨hf, hn, rfl, rfl⟩, rfl⟩
  | load =>
    rcases h with h | h
    · exact ⟨store c.x, ⟨h, rfl⟩, rfl⟩
    · exact ⟨load c.x, ⟨h, rfl⟩, rfl⟩
  | wrap => exact ⟨draw c.x c.y c.nibble, ⟨h, rfl, rfl, rfl⟩, rfl⟩
  | logic =>
    obtain ⟨hf, hn⟩ := h
    simp only [List.mem_cons, List.not_mem_nil, or_false] at hn
    rcases hn with hn | hn | hn
    · exact ⟨alu .or c.x c.y, ⟨hf, hn, rfl, rfl⟩, rfl⟩
    · exact ⟨alu .and c.x c.y, ⟨hf, hn, rfl, rfl⟩, rfl⟩
    · exact ⟨alu .xor c.x c.y, ⟨hf, hn, rfl, rfl⟩, rfl⟩
  | jump => exact ⟨jumpPlus c.address, ⟨h, rfl⟩, rfl⟩
  | indexOverflow => exact ⟨addIndex c.x, ⟨h, rfl⟩, rfl⟩

theorem consults_of_switch? (hr : c.Reads i) (h : i.switch? = some q) : c.Consults q := by
  cases i with
  | alu op x y =>
    obtain ⟨hf, hn, -, -⟩ := hr
    cases op <;> cases h <;> exact ⟨hf, by simp [hn, aluNibble]⟩
  | store x =>
    cases h
    exact Or.inl hr.1
  | load x =>
    cases h
    exact Or.inr hr.1
  | draw | jumpPlus | addIndex =>
    cases h
    exact hr.1
  | _ => cases h

theorem consults_iff (hr : c.Reads i) : c.Consults q ↔ i.switch? = some q := by
  refine ⟨fun h => ?_, consults_of_switch? hr⟩
  obtain ⟨j, hj, hq⟩ := reads_of_consults h
  rwa [reads_unique hr hj]

/-- No word consults two switches. -/
theorem consults_unique {q' : Switch} (h : c.Consults q) (h' : c.Consults q') : q = q' := by
  obtain ⟨i, hr, hq⟩ := reads_of_consults h
  exact Option.some.inj (hq.symm.trans ((consults_iff hr).1 h'))

variable [NumberSource ρ]

/-- Dialects that agree on the switch consulted run an instruction alike. -/
theorem execute_congr (h : ∀ q, i.switch? = some q → d q = d' q) :
    (i.execute d : Action ρ Unit) = i.execute d' := by
  cases i with
  | alu op x y =>
    show (executeAlu d op x y : Action ρ Unit) = executeAlu d' op x y
    cases op with
    | shiftRight | shiftLeft =>
      have hq := h .shift rfl
      simp only [executeAlu, Alu.flag, hq, Alu.isBitwise, Bool.false_and, Bool.false_eq_true, if_false]
    | or | and | xor =>
      have hq := h .logic rfl
      simp only [executeAlu, Alu.flag, hq, Alu.isShift, Bool.false_and]
    | _ => rfl
  | store | load =>
    have hq := h .load rfl
    simp only [execute, advanceIndex, hq]
  | draw =>
    have hq := h .wrap rfl
    simp only [execute, executeDraw, hq]
  | jumpPlus =>
    have hq := h .jump rfl
    simp only [execute, hq]
  | addIndex =>
    have hq := h .indexOverflow rfl
    simp only [execute, hq]
  | _ => rfl

/-! ### Dialects that differ -/

omit [NumberSource ρ] in
theorem sameBut_refl (q : Switch) (x : Register) (m : Machine ρ) : m.SameBut q x m where
  memory := rfl
  stack := rfl
  keypad := rfl
  numbers := rfl
  delay := rfl
  sound := rfl
  frame h := absurd rfl h
  index h := absurd rfl h
  counter h := absurd rfl h
  v _ h := absurd rfl h

omit [NumberSource ρ] in
/-- Drawing twice into one machine changes the frame and the flag register at most. -/
theorem sameBut_of_draws (x : Register) (f f' : Frame) (flag flag' : Option Bool) :
    Machine.SameBut .wrap x { m with frame := f, registers := m.registers.setFlag? flag }
      { m with frame := f', registers := m.registers.setFlag? flag' } where
  memory := rfl
  stack := rfl
  keypad := rfl
  numbers := rfl
  delay := by simp
  sound := by simp
  frame _ := rfl
  index h := absurd (by simp) h
  counter h := absurd (by simp) h
  v k h := by
    by_cases hk : k = Register.flag
    · exact Or.inr ⟨hk, by decide⟩
    · exact absurd (by simp only [Registers.get_setFlag?_of_ne _ _ hk]) h

theorem delay_switched (d d' : Dialect) (m : Machine ρ) (hq : i.switch? = some q) :
    (i.registersAfter d' m).dt = (i.registersAfter d m).dt := by
  cases i with
  | alu | store | load | draw | jumpPlus | addIndex => simp [registersAfter, Registers.setV]
  | _ => cases hq

theorem sound_switched (d d' : Dialect) (m : Machine ρ) (hq : i.switch? = some q) :
    (i.registersAfter d' m).st = (i.registersAfter d m).st := by
  cases i with
  | alu | store | load | draw | jumpPlus | addIndex => simp [registersAfter, Registers.setV]
  | _ => cases hq

theorem index_switched (hq : i.switch? = some q)
    (h : (i.registersAfter d' m).i ≠ (i.registersAfter d m).i) : q = .load := by
  cases i with
  | store | load => exact (Option.some.inj hq).symm
  | alu | draw | jumpPlus | addIndex => exact absurd (by simp [registersAfter, Registers.setV]) h
  | _ => cases hq

theorem counter_switched (hq : i.switch? = some q)
    (h : (i.registersAfter d' m).pc ≠ (i.registersAfter d m).pc) : q = .jump := by
  cases i with
  | jumpPlus => exact (Option.some.inj hq).symm
  | alu | store | load | draw | addIndex => exact absurd (by simp [registersAfter, Registers.setV]) h
  | _ => cases hq

theorem v_switched (hr : c.Reads i) (hq : i.switch? = some q) {k : Register}
    (h : (i.registersAfter d' m).v.get k ≠ (i.registersAfter d m).v.get k) :
    (k = c.x ∧ q = .shift) ∨
      (k = .flag ∧ q ∈ [.shift, .wrap, .logic, .indexOverflow]) := by
  cases i with
  | alu op x y =>
    obtain ⟨-, -, rfl, -⟩ := hr
    by_cases hs : op.isShift = true
    · obtain rfl : .shift = q := by simpa [switch?, hs] using hq
      by_cases hk : k = .flag
      · exact Or.inr ⟨hk, by decide⟩
      · refine Or.inl ⟨?_, rfl⟩
        by_cases hx : k = c.x
        · exact hx
        · exact absurd (by simp only [registersAfter, Registers.get_setFlag?_of_ne _ _ hk,
            Registers.get_setV, if_neg hx]) h
    · -- the operands are the same, so only the flag differs
      obtain ⟨-, rfl⟩ : op.isBitwise = true ∧ .logic = q := by simpa [switch?, hs] using hq
      by_cases hk : k = .flag
      · exact Or.inr ⟨hk, by decide⟩
      · have hs' : op.isShift = false := by simpa using hs
        exact absurd (by simp only [registersAfter, Registers.get_setFlag?_of_ne _ _ hk, hs',
          Bool.false_and]) h
  | addIndex =>
    cases hq
    by_cases hk : k = .flag
    · exact Or.inr ⟨hk, by decide⟩
    · exact absurd (by simp only [registersAfter, Registers.get_setFlag?_of_ne _ _ hk]) h
  | store | load | draw | jumpPlus => exact absurd (by simp [registersAfter]) h
  | _ => cases hq

theorem sameBut_machineAfter (d d' : Dialect) (m : Machine ρ) (hr : c.Reads i)
    (hq : i.switch? = some q) : (i.machineAfter d m).SameBut q c.x (i.machineAfter d' m) where
  memory := rfl
  stack := rfl
  keypad := rfl
  numbers := rfl
  delay := delay_switched d d' m hq
  sound := sound_switched d d' m hq
  frame h := absurd rfl h
  index h := index_switched hq h
  counter h := counter_switched hq h
  v _ h := v_switched hr hq h

theorem left_of_draws (d : Dialect) (hf : m.frame.IsGrid) (hi : 0 ≤ m.registers.i)
    (hdt : 0 ≤ m.registers.dt ∧ m.registers.dt ≤ 0xFF) (hd : i.isDraw = true) :
    ∃ frame flag, Action.left (i.execute d) m =
      { m with frame, registers := m.registers.setFlag? flag } := by
  cases outcome d hf hi hdt i with
  | failed f hnot | done hnot => simp [hd] at hnot
  | drawn _ _ _ erased g _ _ _ _ he => exact ⟨g, some erased, (Action.outcome_of_ok he).1⟩
  | cut _ _ _ _ g _ _ _ _ he => exact ⟨g, none, (Action.outcome_of_error he).1⟩

theorem left_of_not_draws (d : Dialect) (hf : m.frame.IsGrid) (hi : 0 ≤ m.registers.i)
    (hdt : 0 ≤ m.registers.dt ∧ m.registers.dt ≤ 0xFF) (hd : i.isDraw = false) :
    Action.left (i.execute d) m = if i.failure? m = none then i.machineAfter d m else m := by
  cases outcome d hf hi hdt i with
  | failed _ _ hfail he => rw [(Action.outcome_of_error he).1, if_neg (by simp [hfail])]
  | done _ hfail he => rw [(Action.outcome_of_ok he).1, if_pos hfail]
  | drawn _ _ _ _ _ hdraw | cut _ _ _ _ _ hdraw =>
    rw [hdraw] at hd
    cases hd

/-- In two dialects, an instruction leaves machines that agree but for what its switch decides about. -/
theorem sameBut_execute (d d' : Dialect) (hf : m.frame.IsGrid) (hi : 0 ≤ m.registers.i)
    (hdt : 0 ≤ m.registers.dt ∧ m.registers.dt ≤ 0xFF) (hr : c.Reads i)
    (hq : i.switch? = some q) :
    (Action.left (i.execute d) m).SameBut q c.x (Action.left (i.execute d') m) := by
  cases hd : i.isDraw with
  | true =>
    obtain ⟨f, flag, hleft⟩ := left_of_draws d hf hi hdt hd
    obtain ⟨f', flag', hleft'⟩ := left_of_draws d' hf hi hdt hd
    obtain rfl : q = .wrap := by
      cases i with
      | draw => exact (Option.some.inj hq).symm
      | _ => cases hd
    rw [hleft, hleft']
    exact sameBut_of_draws c.x f f' flag flag'
  | false =>
    rw [left_of_not_draws d hf hi hdt hd, left_of_not_draws d' hf hi hdt hd]
    split
    · exact sameBut_machineAfter d d' m hr hq
    · exact sameBut_refl q c.x m

end Instruction

end Chip8
