import Chip8.Interpreter.Operation
import Chip8.Proofs.Instruction.Effect

/-!
# Histories

A state is reachable if some history of operations, failed ones included, brings a new interpreter to
it (`Interpreter.Reachable`).  What every operation keeps, every history keeps (`after_induction`).
A tick does one of three things: the fetch fails, the word is no instruction, or an instruction is
executed (`tick_cases`).
-/

namespace Chip8

namespace Interpreter

variable {ρ : Type}

/-! ### Fetching -/

theorem fetch_of_le {s : Interpreter ρ} (h₀ : 0 ≤ s.machine.registers.pc)
    (h : s.machine.registers.pc + 2 ≤ s.machine.memory.size) : ∃ w, s.fetch = .ok w := by
  rw [fetch, wordAt, Memory.readBlock_of_le _ h₀ h]
  exact ⟨_, rfl⟩

theorem fetch_of_lt {s : Interpreter ρ}
    (h : s.machine.memory.size < s.machine.registers.pc + 2) :
    s.fetch = .error (.outOfRange s.machine.registers.pc (s.machine.registers.pc + 1)
      s.machine.memory.top) := by
  rw [fetch, wordAt, Memory.readBlock_of_lt _ h, Int.add_sub_assoc]
  rfl

theorem fetch_eq_ok {s : Interpreter ρ} {w : Opcode} (h : s.fetch.toOption = some w) : s.fetch = .ok w := by
  cases hw : s.fetch with
  | error f =>
    rw [hw] at h
    cases h
  | ok w' =>
    rw [hw] at h
    cases h
    rfl

/-! ### Operations of the host, as changes of one part -/

theorem loadRom_eq_map (s : Interpreter ρ) (rom : List UInt8) :
    s.loadRom rom =
      (if maxRomSize < rom.length then .error (.romTooLarge rom.length)
        else s.machine.memory.writeBlock programStart rom).map
          fun memory => { s with machine := { s.machine with memory } } := by
  unfold loadRom
  split
  · rfl
  · cases s.machine.memory.writeBlock programStart rom <;> rfl

theorem setKey_eq_map (s : Interpreter ρ) (key : Int) (pressed : Bool) :
    s.setKey key pressed =
      (s.machine.keypad.setKey key pressed).map
        fun keypad => { s with machine := { s.machine with keypad } } := by
  unfold setKey
  cases s.machine.keypad.setKey key pressed <;> rfl

theorem setLit_eq_map (s : Interpreter ρ) (x y : Int) (lit : Bool) :
    s.setLit x y lit =
      (s.machine.frame.setLit x y lit).map
        fun frame => { s with machine := { s.machine with frame } } := by
  unfold setLit
  cases s.machine.frame.setLit x y lit <;> rfl

/-! ### What a tick comes to -/

variable [NumberSource ρ] {s : Interpreter ρ}

theorem tick_of_error {f : Fault} (h : s.fetch = .error f) :
    s.tick = ⟨{ s with fetchedFrom := s.machine.registers.pc }, none, some f⟩ := by
  simp only [tick, h]

theorem tick_of_illegal {w : Opcode} (h : s.fetch = .ok w)
    (hi : Instruction.ofOpcode? w = none) :
    s.tick.after = s.fetched w ∧ s.tick.fault = some (s.fetched w).illegalFault := by
  have hd : (s.fetched w).dispatch = (s.fetched w, some (s.fetched w).illegalFault) := by
    simp only [dispatch, show (s.fetched w).word = w from rfl, hi]
  simp only [tick, h, hd, and_self]

theorem tick_of_instruction {w : Opcode} {i : Instruction} (h : s.fetch = .ok w)
    (hi : Instruction.ofOpcode? w = some i) :
    s.tick.after =
        { s.fetched w with machine := Action.left (i.execute s.dialect) (s.fetched w).machine } ∧
      s.tick.fault = Action.fault? (i.execute s.dialect) (s.fetched w).machine := by
  have hd : (s.fetched w).dispatch =
      ({ s.fetched w with machine := Action.left (i.execute s.dialect) (s.fetched w).machine },
        Action.fault? (i.execute s.dialect) (s.fetched w).machine) := by
    simp only [dispatch, show (s.fetched w).word = w from rfl, hi, Action.left, Action.fault?]
    split <;> simp_all [fetched]
  simp only [tick, h, hd, and_self]

/-- What a tick can come to. -/
inductive TickCase (s : Interpreter ρ) : Prop
  /-- No word is fetched. -/
  | unfetched (f : Fault) (fetch : s.fetch = .error f)
      (ends : s.tick = ⟨{ s with fetchedFrom := s.machine.registers.pc }, none, some f⟩)
  /-- The word is no instruction. -/
  | illegal (w : Opcode) (fetch : s.fetch = .ok w) (reads : Instruction.ofOpcode? w = none)
      (after : s.tick.after = s.fetched w)
      (fault : s.tick.fault = some (s.fetched w).illegalFault)
  /-- The word is executed. -/
  | executed (w : Opcode) (i : Instruction) (fetch : s.fetch = .ok w)
      (reads : Instruction.ofOpcode? w = some i)
      (after : s.tick.after =
        { s.fetched w with machine := Action.left (i.execute s.dialect) (s.fetched w).machine })
      (fault : s.tick.fault = Action.fault? (i.execute s.dialect) (s.fetched w).machine)

theorem tick_cases (s : Interpreter ρ) : s.TickCase := by
  cases hw : s.fetch with
  | error f => exact .unfetched f hw (tick_of_error hw)
  | ok w =>
    cases hi : Instruction.ofOpcode? w with
    | none =>
      obtain ⟨hafter, hfault⟩ := tick_of_illegal hw hi
      exact .illegal w hw hi hafter hfault
    | some i =>
      obtain ⟨hafter, hfault⟩ := tick_of_instruction hw hi
      exact .executed w i hw hi hafter hfault

/-! ### Histories -/

@[simp] theorem after_nil (s : Interpreter ρ) : s.after [] = s := rfl

@[simp] theorem after_cons (s : Interpreter ρ) (op : Operation) (history : List Operation) :
    s.after (op :: history) = (s.perform op).after.after history := rfl

theorem after_append (s : Interpreter ρ) (history more : List Operation) :
    s.after (history ++ more) = (s.after history).after more :=
  List.foldl_append

/-- What every operation keeps, every history keeps. -/
theorem after_induction {P : Interpreter ρ → Prop}
    (step : ∀ s op, P s → P (s.perform op).after) {s : Interpreter ρ} (h : P s)
    (history : List Operation) : P (s.after history) := by
  induction history generalizing s with
  | nil => exact h
  | cons op history ih => exact ih (step s op h)

/-- Whether something holds of the interpreter whenever a history ticks. -/
def AtTicks (P : Interpreter ρ → Prop) (s : Interpreter ρ) (history : List Operation) : Prop :=
  ∀ before rest, history = before ++ .tick :: rest → P (s.after before)

@[simp] theorem atTicks_nil (P : Interpreter ρ → Prop) (s : Interpreter ρ) : s.AtTicks P [] := by
  intro before rest h
  cases before <;> cases h

theorem atTicks_cons {P : Interpreter ρ → Prop} {s : Interpreter ρ} {op : Operation}
    {history : List Operation} :
    s.AtTicks P (op :: history) ↔ (op = .tick → P s) ∧ (s.perform op).after.AtTicks P history := by
  constructor
  · intro h
    constructor
    · rintro rfl
      exact h [] history rfl
    · intro before rest hb
      exact h (op :: before) rest (by rw [hb, List.cons_append])
  · rintro ⟨hnow, hlater⟩ before rest hb
    cases before with
    | nil =>
      obtain ⟨htick, -⟩ := List.cons.inj hb
      exact hnow htick
    | cons first before =>
      obtain ⟨rfl, hrest⟩ := List.cons.inj hb
      exact hlater before rest hrest

/-- A state that some history brings a new interpreter to. -/
def Reachable (s : Interpreter ρ) : Prop :=
  ∃ (dialect : Dialect) (tracing : Bool) (numbers : ρ) (history : List Operation),
    s = (new dialect tracing numbers).after history

theorem Reachable.after (h : s.Reachable) (history : List Operation) :
    (s.after history).Reachable := by
  obtain ⟨dialect, tracing, numbers, before, rfl⟩ := h
  exact ⟨dialect, tracing, numbers, before ++ history, (after_append _ _ _).symm⟩

theorem Reachable.tick (h : s.Reachable) : s.tick.after.Reachable := h.after [.tick]

/-- What a new interpreter has and every operation keeps, every reachable state has. -/
theorem Reachable.induction {P : Interpreter ρ → Prop}
    (new : ∀ dialect tracing numbers, P (new dialect tracing numbers))
    (step : ∀ s op, P s → P (s.perform op).after) (h : s.Reachable) : P s := by
  obtain ⟨dialect, tracing, numbers, history, rfl⟩ := h
  exact after_induction step (new dialect tracing numbers) history

end Interpreter

end Chip8
