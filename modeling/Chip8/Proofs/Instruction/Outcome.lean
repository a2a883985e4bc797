import Chip8.Proofs.Instruction.Drawing

/-!
# How an instruction ends

Every instruction ends in one of four ways (`Outcome`, `outcome`).  From this follow the fault, the
stack and the bytes of memory that any instruction leaves, drawing or not (`fault?_execute`,
`stack_left`, `byteAt_left`).
-/

namespace Chip8

namespace Instruction

variable {ρ : Type} [NumberSource ρ] (d : Dialect) {m : Machine ρ}

/-- The ways in which an instruction can end. -/
inductive Outcome (d : Dialect) (m : Machine ρ) (i : Instruction) : Prop
  /-- An instruction other than `draw` fails and leaves the machine alone. -/
  | failed (f : Fault) (draws : i.isDraw = false) (failure : i.failure? m = some f)
      (ends : i.execute d m = .error f m)
  /-- An instruction other than `draw` does what it does. -/
  | done (draws : i.isDraw = false) (failure : i.failure? m = none)
      (ends : i.execute d m = .ok () (i.machineAfter d m))
  /-- A sprite is drawn. -/
  | drawn (x y : Register) (n : Fin 16) (erased : Bool) (g : Frame) (draws : i = draw x y n)
      (grid : g.IsGrid) (toggled : Frame.Toggled (d .wrap) (drawnCells m x y n.val) m.frame g)
      (failure : i.failure? m = none)
      (ends : i.execute d m = .ok () { m with
        frame := g
        registers := m.registers.setV .flag (if erased then 1 else 0) })
  /-- A sprite is drawn as far as it lies in memory. -/
  | cut (x y : Register) (n : Fin 16) (f : Fault) (g : Frame) (draws : i = draw x y n)
      (grid : g.IsGrid) (toggled : Frame.Toggled (d .wrap) (drawnCells m x y n.val) m.frame g)
      (failure : i.failure? m = some f) (ends : i.execute d m = .error f { m with frame := g })

theorem outcome (hf : m.frame.IsGrid) (hi : 0 ≤ m.registers.i)
    (hdt : 0 ≤ m.registers.dt ∧ m.registers.dt ≤ 0xFF) (i : Instruction) : Outcome d m i := by
  by_cases hd : i.isDraw = true
  · cases i with
    | draw x y n =>
      by_cases hn : n.val = 0 ∨ m.registers.i + n.val ≤ m.memory.size
      · have hnone : (draw x y n).failure? m = none := if_neg (by simp only [span]; omega)
        obtain ⟨erased, g, hgrid, ht, -, he⟩ :=
          execute_draw_of_le d hf x y (hn.imp_right fun h => ⟨hi, h⟩)
        exact .drawn x y n erased g rfl hgrid ht hnone he
      · have hsome : (draw x y n).failure? m = some _ := if_pos (by simp only [span]; omega)
        obtain ⟨g, hgrid, ht, he⟩ :=
          execute_draw_of_lt d hf hi x y (fun h => hn (Or.inl h)) (by omega)
        exact .cut x y n _ g rfl hgrid ht hsome he
    | _ => cases hd
  · have hd' : i.isDraw = false := by simpa using hd
    cases hfail : i.failure? m with
    | some f => exact .failed f hd' hfail (execute_of_failure d m hd' hfail)
    | none => exact .done hd' hfail (execute_of_accepted d m hd' hi ⟨hdt.1, by omega⟩ hfail)

theorem fault?_execute (hf : m.frame.IsGrid) (hi : 0 ≤ m.registers.i)
    (hdt : 0 ≤ m.registers.dt ∧ m.registers.dt ≤ 0xFF) (i : Instruction) :
    Action.fault? (i.execute d) m = i.failure? m := by
  cases outcome d hf hi hdt i with
  | failed f _ hfail he => exact (Action.outcome_of_error he).2.trans hfail.symm
  | done _ hfail he => exact (Action.outcome_of_ok he).2.trans hfail.symm
  | drawn _ _ _ _ _ _ _ _ hfail he => exact (Action.outcome_of_ok he).2.trans hfail.symm
  | cut _ _ _ f _ _ _ _ hfail he => exact (Action.outcome_of_error he).2.trans hfail.symm

/-! ### What an instruction leaves -/

omit [NumberSource ρ] in
theorem stackAfter_of_failure {i : Instruction} {f : Fault} (h : i.failure? m = some f) :
    i.stackAfter m = m.stack := by
  cases i with
  | ret =>
    obtain ⟨hl, -⟩ : m.stack.live = [] ∧ Fault.stackUnderflow = f := by simpa [failure?] using h
    simp only [stackAfter, hl]
    rw [← hl]
  | call target =>
    obtain ⟨hs, -⟩ : m.stack.spare = [] ∧ Fault.stackOverflow = f := by simpa [failure?] using h
    simp only [stackAfter, hs]
    rw [← hs]
  | _ => rfl

theorem stack_left (hf : m.frame.IsGrid) (hi : 0 ≤ m.registers.i)
    (hdt : 0 ≤ m.registers.dt ∧ m.registers.dt ≤ 0xFF) (i : Instruction) :
    (Action.left (i.execute d) m).stack = i.stackAfter m := by
  cases outcome d hf hi hdt i with
  | failed f _ hfail he =>
    rw [(Action.outcome_of_error he).1, stackAfter_of_failure hfail]
  | done _ _ he => rw [(Action.outcome_of_ok he).1, machineAfter]
  | drawn _ _ _ _ _ hdraw _ _ _ he =>
    rw [(Action.outcome_of_ok he).1, hdraw]
    rfl
  | cut _ _ _ _ _ _ _ _ hfail he =>
    rw [(Action.outcome_of_error he).1, stackAfter_of_failure hfail]

/-- An instruction changes no byte outside the block that it writes at the index register. -/
theorem byteAt_left (hf : m.frame.IsGrid) (hi : 0 ≤ m.registers.i)
    (hdt : 0 ≤ m.registers.dt ∧ m.registers.dt ≤ 0xFF) {i : Instruction} {a : Int}
    (h₀ : 0 ≤ a)
    (ha : a < m.registers.i ∨ m.registers.i + (i.blockWritten m.registers).length ≤ a) :
    (Action.left (i.execute d) m).memory.byteAt a = m.memory.byteAt a := by
  cases outcome d hf hi hdt i with
  | failed _ _ _ he => rw [(Action.outcome_of_error he).1]
  | done _ _ he =>
    rw [(Action.outcome_of_ok he).1]
    exact Memory.byteAt_setBlock_of_outside _ (by omega)
  | drawn _ _ _ _ _ _ _ _ _ he => rw [(Action.outcome_of_ok he).1]
  | cut _ _ _ _ _ _ _ _ _ he => rw [(Action.outcome_of_error he).1]

end Instruction

end Chip8
