import Chip8.Instruction.Execution
import Chip8.Proofs.Machine.Blocks

/-!
# The effect of an instruction, part by part

`Instruction.execute` is a computation.  For every instruction but `draw`, this file says what it
comes to: why the instruction is refused (`failure?`), and otherwise the memory, stack, registers,
frame and number source that it leaves (`memoryAfter`, `stackAfter`, …).  A refused instruction leaves
the machine alone (`execute_of_failure`, `execute_of_accepted`).
-/

namespace Chip8

namespace Action

variable {ρ α : Type}

/-- The machine that a computation leaves, whether or not it is refused. -/
def left (act : Action ρ α) (m : Machine ρ) : Machine ρ :=
  match act m with
  | .ok _ m => m
  | .error _ m => m

/-- Why a computation is refused, if it is. -/
def fault? (act : Action ρ α) (m : Machine ρ) : Option Fault :=
  match act m with
  | .ok _ _ => none
  | .error f _ => some f

theorem outcome_of_ok {act : Action ρ α} {m m' : Machine ρ} {a : α} (h : act m = .ok a m') :
    act.left m = m' ∧ act.fault? m = none := by
  simp only [left, fault?, h, and_self]

theorem outcome_of_error {act : Action ρ α} {m m' : Machine ρ} {f : Fault}
    (h : act m = .error f m') : act.left m = m' ∧ act.fault? m = some f := by
  simp only [left, fault?, h, and_self]

end Action

namespace Registers

/-- The registers with one byte register set. -/
def setV (r : Registers) (x : Register) (b : UInt8) : Registers :=
  { r with v := r.v.set x.val b x.lt }

/-- The registers with the flag register set, if there is a flag. -/
def setFlag? (r : Registers) : Option Bool → Registers
  | some on => r.setV .flag (if on then 1 else 0)
  | none => r

/-- The registers past the next instruction, if the condition holds. -/
def skipIf (r : Registers) (condition : Bool) : Registers :=
  if condition then { r with pc := r.pc + 2 } else r

/-- The registers with the index register moved past `count` bytes, if the dialect does so. -/
def advance (r : Registers) (d : Dialect) (count : Nat) : Registers :=
  if d .load then { r with i := wrapIndex (r.i + count) } else r

end Registers

namespace Instruction

variable {ρ : Type}

/-- Whether an instruction draws. -/
def isDraw : Instruction → Bool
  | draw _ _ _ => true
  | _ => false

/-- The number of bytes that an instruction reads or writes from the index register on. -/
def span : Instruction → Nat
  | storeDigits _ => 3
  | store x => x.val + 1
  | load x => x.val + 1
  | draw _ _ rows => rows.val
  | _ => 0

/-- Why an instruction fails, if it does.  A block is refused as a whole; a sprite fails at the first
row that does not lie in memory. -/
def failure? (m : Machine ρ) (i : Instruction) : Option Fault :=
  match i with
  | ret => if m.stack.live = [] then some .stackUnderflow else none
  | call _ => if m.stack.spare = [] then some .stackOverflow else none
  | i =>
    if i.span ≠ 0 ∧ m.memory.size < m.registers.i + i.span then
      let (first, last) :=
        if i.isDraw then (max m.registers.i m.memory.size, max m.registers.i m.memory.size)
        else (m.registers.i, m.registers.i + i.span - 1)
      some (.outOfRange first last m.memory.top)
    else none

/-- The bytes that an instruction writes at the index register. -/
def blockWritten (r : Registers) : Instruction → List UInt8
  | storeDigits x => digits (r.v.get x)
  | store x => r.v.toList.take (x.val + 1)
  | _ => []

/-- The memory after an instruction that is not refused. -/
def memoryAfter (m : Machine ρ) (i : Instruction) : Memory :=
  m.memory.setBlock m.registers.i.toNat (i.blockWritten m.registers)

/-- The stack after an instruction that is not refused. -/
def stackAfter (m : Machine ρ) (i : Instruction) : CallStack :=
  match i, m.stack.live, m.stack.spare with
  | ret, target :: live, spare => ⟨live, target :: spare⟩
  | call _, live, _ :: spare => ⟨m.registers.pc :: live, spare⟩
  | _, live, spare => ⟨live, spare⟩

/-- The frame after an instruction other than `draw`. -/
def frameAfter (m : Machine ρ) : Instruction → Frame
  | clearFrame => m.frame.clear
  | _ => m.frame

/-- The number source after an instruction. -/
def numbersAfter [NumberSource ρ] (m : Machine ρ) : Instruction → ρ
  | random _ _ => (NumberSource.draw m.numbers).2
  | _ => m.numbers

theorem div_lt_sixteen (target : Location) : target.val / 256 < 16 :=
  Nat.div_lt_of_lt_mul target.isLt

/-- The register that the jump with an offset adds. -/
def offsetRegister (d : Dialect) (target : Location) : Register :=
  if d .jump then ⟨target.val / 256, div_lt_sixteen target⟩ else .first

/-- The registers after an instruction that is not refused. -/
def registersAfter [NumberSource ρ] (d : Dialect) (m : Machine ρ) (i : Instruction) : Registers :=
  let r := m.registers
  let v := r.v.get
  match i with
  | ret => { r with pc := m.stack.live.headD 0 }
  | jump target => { r with pc := target.val }
  | call target => { r with pc := target.val }
  | skipIfByte x value => r.skipIf (v x == value)
  | skipUnlessByte x value => r.skipIf (v x != value)
  | skipIfSame x y => r.skipIf (v x == v y)
  | skipUnlessSame x y => r.skipIf (v x != v y)
  | skipIfKey x => r.skipIf (m.keypad.isDown (v x).toNat)
  | skipUnlessKey x => r.skipIf (!m.keypad.isDown (v x).toNat)
  | setByte x value => r.setV x value
  | addByte x value => r.setV x (v x + value)
  | alu op x y =>
    let a := v x
    let b := v (if op.isShift && d .shift then x else y)
    (r.setV x (op.result a b).1).setFlag? (op.flag d a b)
  | setIndex target => { r with i := target.val }
  | jumpPlus target =>
    { r with pc := target.val + (v (offsetRegister d target)).toNat }
  | random x mask => r.setV x (UInt8.ofInt (NumberSource.draw m.numbers).1 &&& mask)
  | getDelay x => r.setV x (UInt8.ofNat r.dt.toNat)
  | awaitKey x =>
    match m.keypad.firstPressed with
    | none => { r with pc := r.pc - 2 }
    | some key => r.setV x (UInt8.ofNat key.val)
  | setDelay x => { r with dt := (v x).toNat }
  | setSound x => { r with st := (v x).toNat }
  | addIndex x =>
    let sum := r.i + (v x).toNat
    { r with i := wrapIndex sum }.setFlag? (if d .indexOverflow then some (decide (0xFFF < sum)) else none)
  | glyph x => { r with i := fontStart + glyphSize * ((v x).toNat % 16) }
  | store x => r.advance d (x.val + 1)
  | load x =>
    { r with v := replaceV r.v (m.memory.cut r.i (r.i + (x.val + 1))) }.advance d (x.val + 1)
  | _ => r

/-- The machine after an instruction other than `draw` that is not refused. -/
def machineAfter [NumberSource ρ] (d : Dialect) (m : Machine ρ) (i : Instruction) : Machine ρ where
  memory := i.memoryAfter m
  registers := i.registersAfter d m
  stack := i.stackAfter m
  frame := i.frameAfter m
  keypad := m.keypad
  numbers := i.numbersAfter m

/-! ### Failures -/

theorem failure?_of_span (m : Machine ρ) {i : Instruction} (hd : i.isDraw = false) (hb : i.span ≠ 0) :
    i.failure? m =
      if m.memory.size < m.registers.i + i.span then
        some (.outOfRange m.registers.i (m.registers.i + i.span - 1) m.memory.top)
      else none := by
  cases i with
  | ret => exact absurd rfl hb
  | call => exact absurd rfl hb
  | _ => simp only [failure?, hb, hd, ne_eq, not_false_eq_true, true_and, Bool.false_eq_true, if_false]

theorem failure?_eq_stackUnderflow_iff {m : Machine ρ} {i : Instruction} :
    i.failure? m = some .stackUnderflow ↔ i = ret ∧ m.stack.live = [] := by
  cases i <;> simp [failure?]

theorem failure?_eq_stackOverflow_iff {m : Machine ρ} {i : Instruction} :
    i.failure? m = some .stackOverflow ↔ (∃ target, i = call target) ∧ m.stack.spare = [] := by
  cases i <;> simp [failure?]

theorem failure?_eq_outOfRange_iff {m : Machine ρ} {i : Instruction} :
    (∃ first last top, i.failure? m = some (.outOfRange first last top)) ↔
      i.span ≠ 0 ∧ m.memory.size < m.registers.i + i.span := by
  cases i <;> simp [failure?, span, isDraw]

/-- The three reasons for which an instruction fails. -/
theorem failure?_cases {m : Machine ρ} {i : Instruction} {f : Fault} (h : i.failure? m = some f) :
    f = .stackUnderflow ∨ f = .stackOverflow ∨ ∃ first last top, f = .outOfRange first last top := by
  cases f with
  | stackUnderflow => exact Or.inl rfl
  | stackOverflow => exact Or.inr (Or.inl rfl)
  | outOfRange first last top => exact Or.inr (Or.inr ⟨first, last, top, rfl⟩)
  | _ => cases i <;> simp [failure?] at h

/-! ### Computing -/

theorem bind_of_ok {ε σ α β : Type} {act : EStateM ε σ α} {next : α → EStateM ε σ β} {m m' : σ} {a : α}
    (h : act m = .ok a m') : (act >>= next) m = next a m' := by
  simp only [bind, EStateM.bind, h]

theorem bind_of_error {ε σ α β : Type} {act : EStateM ε σ α} {next : α → EStateM ε σ β} {m m' : σ}
    {f : ε} (h : act m = .error f m') : (act >>= next) m = .error f m' := by
  simp only [bind, EStateM.bind, h]

theorem of_bind_eq_ok {ε σ α β : Type} {act : EStateM ε σ α} {next : α → EStateM ε σ β} {m m' : σ} {b : β}
    (h : (act >>= next) m = .ok b m') : ∃ a m₁, act m = .ok a m₁ ∧ next a m₁ = .ok b m' := by
  cases hact : act m with
  | ok a m₁ =>
    rw [bind_of_ok hact] at h
    exact ⟨a, m₁, rfl, h⟩
  | error f m₁ =>
    rw [bind_of_error hact] at h
    cases h

theorem attempt_of_ok {α : Type} {result : Except Fault α} {a : α} (h : result = .ok a)
    (m : Machine ρ) : Action.attempt result m = .ok a m := by
  rw [h]
  rfl

theorem attempt_of_error {α : Type} {result : Except Fault α} {f : Fault} (h : result = .error f)
    (m : Machine ρ) : Action.attempt result m = .error f m := by
  rw [h]
  rfl

theorem writeAtIndex_of_le {m : Machine ρ} {block : List UInt8} (hi : 0 ≤ m.registers.i)
    (h : m.registers.i + block.length ≤ m.memory.size) :
    writeAtIndex block m =
      .ok () { m with memory := m.memory.setBlock m.registers.i.toNat block } :=
  bind_of_ok (attempt_of_ok (Memory.writeBlock_of_le _ hi h) m)

theorem writeAtIndex_of_lt {m : Machine ρ} {block : List UInt8} (hb : block ≠ [])
    (h : m.memory.size < m.registers.i + block.length) :
    writeAtIndex block m =
      .error (.outOfRange m.registers.i (m.registers.i + block.length - 1) m.memory.top) m :=
  (bind_of_ok rfl).trans (bind_of_error (attempt_of_error (Memory.writeBlock_of_lt _ hb h) m))

theorem length_stored (v : Vector UInt8 16) (x : Register) :
    (v.toList.take (x.val + 1)).length = x.val + 1 := by
  have := x.lt
  rw [List.length_take, Vector.length_toList, Nat.min_eq_left this]

variable [NumberSource ρ] (d : Dialect) (m : Machine ρ)

/-- An instruction that is refused leaves the machine alone. -/
theorem execute_of_failure {i : Instruction} {f : Fault} (hd : i.isDraw = false)
    (h : i.failure? m = some f) : i.execute d m = .error f m := by
  cases i with
  | draw => cases hd
  | ret =>
    simp only [failure?, Option.ite_none_right_eq_some, Option.some.injEq] at h
    obtain ⟨hl, rfl⟩ := h
    have hp : m.stack.pop = .error .stackUnderflow := (CallStack.pop_eq_error_iff _ _).2 ⟨hl, rfl⟩
    exact (bind_of_ok rfl).trans (bind_of_error (attempt_of_error hp m))
  | call target =>
    simp only [failure?, Option.ite_none_right_eq_some, Option.some.injEq] at h
    obtain ⟨hs, rfl⟩ := h
    have hp : m.stack.push m.registers.pc = .error .stackOverflow :=
      (CallStack.push_eq_error_iff _ _ _).2 ⟨hs, rfl⟩
    exact (bind_of_ok rfl).trans (bind_of_error (attempt_of_error hp m))
  | storeDigits x =>
    rw [failure?_of_span m (i := storeDigits x) rfl (Nat.succ_ne_zero _), Option.ite_none_right_eq_some,
      Option.some.injEq] at h
    obtain ⟨hs, rfl⟩ := h
    exact writeAtIndex_of_lt (List.cons_ne_nil _ _) hs
  | store x =>
    rw [failure?_of_span m (i := store x) rfl (Nat.succ_ne_zero _), Option.ite_none_right_eq_some,
      Option.some.injEq] at h
    obtain ⟨hs, rfl⟩ := h
    have hl := length_stored m.registers.v x
    have hw := writeAtIndex_of_lt (m := m) (List.ne_nil_of_length_eq_add_one hl) (hl.symm ▸ hs)
    rw [hl] at hw
    exact (bind_of_ok rfl).trans (bind_of_error hw)
  | load x =>
    rw [failure?_of_span m (i := load x) rfl (Nat.succ_ne_zero _), Option.ite_none_right_eq_some,
      Option.some.injEq] at h
    obtain ⟨hs, rfl⟩ := h
    exact (bind_of_ok rfl).trans (bind_of_error (attempt_of_error (Memory.readBlock_of_lt _ hs) m))
  | _ => simp [failure?, span] at h

/-- What an instruction does if it is not refused. -/
theorem execute_of_accepted {i : Instruction} (hd : i.isDraw = false) (hi : 0 ≤ m.registers.i)
    (hdt : 0 ≤ m.registers.dt ∧ m.registers.dt < 256) (h : i.failure? m = none) :
    i.execute d m = .ok () (i.machineAfter d m) := by
  cases i with
  | draw => cases hd
  | ret =>
    obtain ⟨target, live, hl⟩ : ∃ target live, m.stack.live = target :: live := by
      cases hl : m.stack.live with
      | nil => simp [failure?, hl] at h
      | cons target live => exact ⟨target, live, rfl⟩
    have hp : m.stack.pop = .ok (target, ⟨live, target :: m.stack.spare⟩) := by
      rw [CallStack.pop, hl]
    apply (bind_of_ok (attempt_of_ok hp m)).trans
    simp only [machineAfter, stackAfter, registersAfter, hl]
    rfl
  | call target =>
    obtain ⟨slot, spare, hs⟩ : ∃ slot spare, m.stack.spare = slot :: spare := by
      cases hs : m.stack.spare with
      | nil => simp [failure?, hs] at h
      | cons slot spare => exact ⟨slot, spare, rfl⟩
    have hp : m.stack.push m.registers.pc = .ok ⟨m.registers.pc :: m.stack.live, spare⟩ := by
      rw [CallStack.push, hs]
    apply (bind_of_ok (attempt_of_ok hp m)).trans
    simp only [machineAfter, stackAfter, registersAfter, hs]
    rfl
  | storeDigits x =>
    have hs : m.registers.i + (digits (m.registers.v.get x)).length ≤ m.memory.size := by
      simpa [failure?, span, digits] using h
    exact writeAtIndex_of_le hi hs
  | store x =>
    have hs : m.registers.i + (m.registers.v.toList.take (x.val + 1)).length ≤ m.memory.size := by
      rw [length_stored]
      simpa [failure?, span] using h
    exact bind_of_ok (writeAtIndex_of_le hi hs)
  | load x =>
    have hs : m.registers.i + (x.val + 1) ≤ m.memory.size := by
      simpa [failure?, span] using h
    exact bind_of_ok (attempt_of_ok (Memory.readBlock_of_le _ hi hs) m)
  | getDelay x => exact bind_of_ok (attempt_of_ok (if_pos hdt) m)
  | awaitKey x =>
    show (match m.keypad.firstPressed with
      | none => Action.onRegisters fun r => { r with pc := r.pc - 2 }
      | some key => Action.setV x (UInt8.ofNat key.val) : Action ρ Unit) m = _
    simp only [machineAfter, registersAfter]
    cases m.keypad.firstPressed <;> rfl
  | alu op x y =>
    show (match op.flag d (m.registers.v.get x) _ with
      | some on => Action.setFlag on
      | none => pure () : Action ρ Unit) _ = _
    simp only [machineAfter, registersAfter]
    cases op.flag d _ _ <;> rfl
  | addIndex x =>
    show (if d .indexOverflow then Action.setFlag _ else pure () : Action ρ Unit) _ = _
    simp only [machineAfter, registersAfter]
    cases d .indexOverflow <;> rfl
  | _ => rfl

end Instruction

end Chip8
