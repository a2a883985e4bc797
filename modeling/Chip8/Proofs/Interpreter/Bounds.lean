import Chip8.Proofs.Instruction.Outcome
import Chip8.Proofs.Interpreter.Runs

/-!
# What every reachable machine keeps to

`Machine.WellFormed` is the invariant of all histories: the sizes of memory, stack and frame, and the
ranges of the registers and of the return addresses.  The program counter is never masked.  It stays
at or below `0x10FE`, the farthest that a jump with an offset leads, because a fetch above `0xFFE`
fails and because return addresses are counters just after a fetch.
-/

namespace Chip8

/-- The ranges of the registers. -/
structure Registers.Bounded (r : Registers) : Prop where
  pc : 0 ≤ r.pc ∧ r.pc ≤ 0x10FE
  i : 0 ≤ r.i ∧ r.i ≤ 0xFFFF
  dt : 0 ≤ r.dt ∧ r.dt ≤ 0xFF
  st : 0 ≤ r.st ∧ r.st ≤ 0xFF

/-- The size of the stack, and the range of the return addresses. -/
structure CallStack.Bounded (s : CallStack) : Prop where
  capacity_eq : s.capacity = 16
  live : ∀ a ∈ s.live, 2 ≤ a ∧ a ≤ 0x1000

/-- A frame of the standard size. -/
structure Frame.IsStandard (f : Frame) : Prop where
  grid : f.IsGrid
  width_eq : f.width = 64
  height_eq : f.height = 32

/-- What every reachable machine keeps to. -/
structure Machine.WellFormed {ρ : Type} (m : Machine ρ) : Prop where
  memory_size : m.memory.size = 4096
  registers : m.registers.Bounded
  stack : m.stack.Bounded
  frame : m.frame.IsStandard

/-- The faults that a tick may end with. -/
def Fault.StopsProgram : Fault → Prop
  | .outOfRange _ _ _ | .stackOverflow | .stackUnderflow | .illegal _ _ _ => True
  | _ => False

/-! ### Registers -/

theorem wrapIndex_bounds (i : Int) : 0 ≤ wrapIndex i ∧ wrapIndex i ≤ 0xFFFF := by
  unfold wrapIndex
  omega

namespace Registers

theorem Bounded.withV {r : Registers} (h : r.Bounded) (v : Vector UInt8 16) :
    Bounded { r with v := v } :=
  ⟨h.pc, h.i, h.dt, h.st⟩

theorem Bounded.setV {r : Registers} (h : r.Bounded) (x : Register) (b : UInt8) :
    (r.setV x b).Bounded :=
  h.withV _

theorem Bounded.setFlag? {r : Registers} (h : r.Bounded) (flag : Option Bool) :
    (r.setFlag? flag).Bounded := by
  cases flag with
  | none => exact h
  | some on => exact h.setV _ _

theorem Bounded.skipIf {r : Registers} (h : r.Bounded) (hpc : r.pc ≤ 0x1000) (condition : Bool) :
    (r.skipIf condition).Bounded := by
  cases condition with
  | false => exact h
  | true =>
    have := h.pc
    exact ⟨⟨by show 0 ≤ r.pc + 2; omega, by show r.pc + 2 ≤ 0x10FE; omega⟩, h.i, h.dt, h.st⟩

theorem Bounded.withPc {r : Registers} (h : r.Bounded) {pc : Int} (hpc : 0 ≤ pc ∧ pc ≤ 0x10FE) :
    Bounded { r with pc := pc } :=
  ⟨hpc, h.i, h.dt, h.st⟩

theorem Bounded.withI {r : Registers} (h : r.Bounded) {i : Int} (hi : 0 ≤ i ∧ i ≤ 0xFFFF) :
    Bounded { r with i := i } :=
  ⟨h.pc, hi, h.dt, h.st⟩

theorem Bounded.advance {r : Registers} (h : r.Bounded) (d : Dialect) (count : Nat) :
    (r.advance d count).Bounded := by
  unfold Registers.advance
  split
  · exact h.withI (wrapIndex_bounds _)
  · exact h

theorem bounded_initial : initial.Bounded :=
  ⟨by decide, by decide, by decide, by decide⟩

end Registers

/-! ### Frames -/

namespace Frame

theorem isStandard_standard : standard.IsStandard where
  grid := {
    width_pos := by decide
    height_pos := by decide
    size_eq := by simp only [standard, Memory.size_zeros]; rfl
    bit := fun loc => Or.inl (Memory.byteAt_zeros _ _) }
  width_eq := rfl
  height_eq := rfl

theorem clear_eq_standard {f : Frame} (h : f.IsStandard) : f.clear = standard := by
  have hsize : (f.plane.size : Int) = 64 * 32 := by
    rw [← h.width_eq, ← h.height_eq]
    exact h.grid.size_eq
  have hcells : f.plane.size = standardWidth * standardHeight := by
    simp only [standardWidth, standardHeight]
    omega
  rw [clear, Memory.clear, hcells, h.width_eq, h.height_eq]
  rfl

theorem IsStandard.clear {f : Frame} (h : f.IsStandard) : f.clear.IsStandard := by
  rw [clear_eq_standard h]
  exact isStandard_standard

theorem isStandard_setLit {f g : Frame} (hf : f.IsStandard) {x y : Int} {lit : Bool}
    (h : f.setLit x y lit = .ok g) : g.IsStandard := by
  rw [setLit_eq_map] at h
  cases hc : f.plane.check (f.location x y) 1 with
  | error e =>
    rw [hc] at h
    cases h
  | ok =>
    rw [hc] at h
    cases h
    exact ⟨isGrid_withByte hf.grid x y (by cases lit <;> simp), hf.width_eq, hf.height_eq⟩

end Frame

/-! ### Instructions -/

theorem toNat_byte_le (b : UInt8) : (0 : Int) ≤ b.toNat ∧ (b.toNat : Int) ≤ 0xFF := by
  have := b.toNat_lt
  omega

namespace Instruction

variable {ρ : Type} {m : Machine ρ}

theorem bounded_stackAfter (hs : m.stack.Bounded)
    (hpc : 2 ≤ m.registers.pc ∧ m.registers.pc ≤ 0x1000) (i : Instruction) :
    (i.stackAfter m).Bounded := by
  have hc : m.stack.live.length + m.stack.spare.length = 16 := hs.capacity_eq
  cases i with
  | ret =>
    cases hl : m.stack.live with
    | nil =>
      simp only [stackAfter, hl]
      exact ⟨by rw [← hc, hl]; rfl, by simp⟩
    | cons target live =>
      simp only [stackAfter, hl]
      rw [hl, List.length_cons] at hc
      constructor
      · show live.length + (m.stack.spare.length + 1) = 16
        omega
      · intro a ha
        exact hs.live a (hl ▸ List.mem_cons_of_mem _ ha)
  | call target =>
    cases hsp : m.stack.spare with
    | nil =>
      simp only [stackAfter, hsp]
      exact ⟨by rw [← hc, hsp]; rfl, hs.live⟩
    | cons slot spare =>
      simp only [stackAfter, hsp]
      rw [hsp, List.length_cons] at hc
      constructor
      · show (m.stack.live.length + 1) + spare.length = 16
        omega
      · intro a ha
        rcases List.mem_cons.1 ha with rfl | ha
        · exact hpc
        · exact hs.live a ha
  | _ => exact hs

theorem isStandard_frameAfter (hf : m.frame.IsStandard) (i : Instruction) :
    (i.frameAfter m).IsStandard := by
  cases i with
  | clearFrame => exact hf.clear
  | _ => exact hf

theorem stopsProgram_of_failure? {i : Instruction} {f : Fault} (h : i.failure? m = some f) :
    f.StopsProgram := by
  rcases failure?_cases h with rfl | rfl | ⟨first, last, top, rfl⟩ <;> trivial

variable [NumberSource ρ] (d : Dialect)

/-- After a fetch, every instruction that is not refused keeps the registers in their ranges. -/
theorem bounded_registersAfter (hr : m.registers.Bounded) (hs : m.stack.Bounded)
    (hpc : 2 ≤ m.registers.pc ∧ m.registers.pc ≤ 0x1000) (i : Instruction) :
    (i.registersAfter d m).Bounded := by
  cases i with
  | ret =>
    apply hr.withPc
    cases hl : m.stack.live with
    | nil => exact ⟨by decide, by decide⟩
    | cons target live =>
      have := hs.live target (hl ▸ List.mem_cons_self ..)
      rw [List.headD_cons]
      omega
  | jump target | call target =>
    have := target.isLt
    exact hr.withPc ⟨by omega, by omega⟩
  | skipIfByte | skipUnlessByte | skipIfSame | skipUnlessSame | skipIfKey | skipUnlessKey =>
    exact hr.skipIf hpc.2 _
  | setByte | addByte | random | getDelay => exact hr.setV _ _
  | alu => exact (hr.setV _ _).setFlag? _
  | setIndex target =>
    have := target.isLt
    exact hr.withI ⟨by omega, by omega⟩
  | jumpPlus target =>
    have := target.isLt
    have := toNat_byte_le (m.registers.v.get (offsetRegister d target))
    exact hr.withPc ⟨by omega, by omega⟩
  | awaitKey x =>
    simp only [registersAfter]
    split
    · exact hr.withPc ⟨by omega, by omega⟩
    · exact hr.setV _ _
  | setDelay x => exact ⟨hr.pc, hr.i, toNat_byte_le _, hr.st⟩
  | setSound x => exact ⟨hr.pc, hr.i, hr.dt, toNat_byte_le _⟩
  | addIndex x => exact (hr.withI (wrapIndex_bounds _)).setFlag? _
  | glyph x =>
    apply hr.withI
    simp only [fontStart, glyphSize]
    omega
  | store x => exact hr.advance d _
  | load x => exact (hr.withV _).advance d _
  | clearFrame | draw | storeDigits => exact hr

/-- Executing an instruction after a fetch keeps the machine well-formed. -/
theorem wellFormed_execute (hm : m.WellFormed)
    (hpc : 2 ≤ m.registers.pc ∧ m.registers.pc ≤ 0x1000) (i : Instruction) :
    (Action.left (i.execute d) m).WellFormed := by
  obtain ⟨hmem, hr, hs, hf⟩ := hm
  cases outcome d hf.grid hr.i.1 hr.dt i with
  | failed f _ _ he =>
    rw [(Action.outcome_of_error he).1]
    exact ⟨hmem, hr, hs, hf⟩
  | done _ _ he =>
    rw [(Action.outcome_of_ok he).1]
    exact ⟨(Memory.size_setBlock _ _ _).trans hmem, bounded_registersAfter d hr hs hpc i,
      bounded_stackAfter hs hpc i, isStandard_frameAfter hf i⟩
  | drawn x y n erased g _ hgrid ht _ he =>
    rw [(Action.outcome_of_ok he).1]
    exact ⟨hmem, hr.setV _ _, hs, hgrid, ht.width_eq.trans hf.width_eq,
      ht.height_eq.trans hf.height_eq⟩
  | cut x y n f g _ hgrid ht _ he =>
    rw [(Action.outcome_of_error he).1]
    exact ⟨hmem, hr, hs, hgrid, ht.width_eq.trans hf.width_eq, ht.height_eq.trans hf.height_eq⟩

end Instruction

/-! ### Operations -/

namespace Interpreter

variable {ρ : Type} {s : Interpreter ρ}

theorem wellFormed_new (dialect : Dialect) (tracing : Bool) (numbers : ρ) :
    (new dialect tracing numbers).machine.WellFormed where
  memory_size := by simp only [new, Memory.size_setBlock, Memory.size_zeros]; rfl
  registers := Registers.bounded_initial
  stack := ⟨rfl, fun a ha => by cases ha⟩
  frame := Frame.isStandard_standard

theorem wellFormed_reset (h : s.machine.WellFormed) : s.reset.machine.WellFormed where
  memory_size := by
    simp only [reset, clearAroundFont, Memory.size_setBlock]
    exact h.memory_size
  registers := Registers.bounded_initial
  stack := by
    constructor
    · simp only [reset, CallStack.clear, h.stack.capacity_eq]
      rfl
    · intro a ha
      cases ha
  frame := h.frame.clear

theorem countDown_bounds {t : Int} (h : 0 ≤ t ∧ t ≤ 0xFF) : 0 ≤ countDown t ∧ countDown t ≤ 0xFF := by
  unfold countDown
  split <;> omega

theorem wellFormed_updateTimers (h : s.machine.WellFormed) :
    s.updateTimers.machine.WellFormed :=
  ⟨h.memory_size, ⟨h.registers.pc, h.registers.i, countDown_bounds h.registers.dt,
    countDown_bounds h.registers.st⟩, h.stack, h.frame⟩

theorem top_eq (h : s.machine.WellFormed) : s.machine.memory.top = 0xFFF := by
  rw [Memory.top, h.memory_size]
  rfl

theorem loadRom_of_le (h : s.machine.WellFormed) {rom : List UInt8} (hr : rom.length ≤ 3584) :
    s.loadRom rom = .ok { s with machine := { s.machine with
      memory := s.machine.memory.setBlock programStart rom } } := by
  have hs : (programStart : Int) + rom.length ≤ s.machine.memory.size := by
    rw [h.memory_size, programStart]
    omega
  rw [loadRom, if_neg (by rw [maxRomSize]; omega), Memory.writeBlock_of_le _ (by decide) hs]
  rfl

theorem loadRom_of_lt {rom : List UInt8} (hr : 3584 < rom.length) :
    s.loadRom rom = .error (.romTooLarge rom.length) := by
  rw [loadRom, if_pos (by rw [maxRomSize]; omega)]

/-- A word is fetched iff it starts at `0xFFE` at most. -/
theorem fetch_cases (h : s.machine.WellFormed) :
    (s.machine.registers.pc ≤ 0xFFE ∧ ∃ w, s.fetch = .ok w) ∨
      (0xFFE < s.machine.registers.pc ∧
        s.fetch = .error (.outOfRange s.machine.registers.pc (s.machine.registers.pc + 1) 0xFFF)) := by
  have hm := h.memory_size
  by_cases hpc : s.machine.registers.pc ≤ 0xFFE
  · exact Or.inl ⟨hpc, fetch_of_le h.registers.pc.1 (by omega)⟩
  · right
    refine ⟨by omega, ?_⟩
    rw [← top_eq h]
    exact fetch_of_lt (by omega)

theorem stopsProgram_of_fetch (h : s.machine.WellFormed) {f : Fault} (hf : s.fetch = .error f) :
    f.StopsProgram := by
  rcases fetch_cases h with ⟨-, w, hw⟩ | ⟨-, hw⟩
  · cases hf.symm.trans hw
  · cases hf.symm.trans hw
    trivial

theorem wellFormed_fetched (h : s.machine.WellFormed) {w : Opcode} (hw : s.fetch = .ok w) :
    (s.fetched w).machine.WellFormed ∧ 2 ≤ (s.fetched w).machine.registers.pc ∧
      (s.fetched w).machine.registers.pc ≤ 0x1000 := by
  rcases fetch_cases h with ⟨hpc, -⟩ | ⟨-, he⟩
  · have hr := h.registers
    have hnext : 2 ≤ s.machine.registers.pc + 2 ∧ s.machine.registers.pc + 2 ≤ 0x1000 := by
      have := hr.pc
      omega
    exact ⟨⟨h.memory_size, hr.withPc ⟨by omega, by omega⟩, h.stack, h.frame⟩, hnext⟩
  · rw [he] at hw
    cases hw

variable [NumberSource ρ]

theorem wellFormed_tick (h : s.machine.WellFormed) :
    s.tick.after.machine.WellFormed ∧ ∀ f, s.tick.fault = some f → f.StopsProgram := by
  cases tick_cases s with
  | unfetched f hw ends =>
    rw [ends]
    constructor
    · exact h
    · intro f' hf
      cases hf
      exact stopsProgram_of_fetch h hw
  | illegal w hw hi hafter hfault =>
    rw [hafter, hfault]
    constructor
    · exact (wellFormed_fetched h hw).1
    · intro f hf
      cases hf
      trivial
  | executed w i hw hi hafter hfault =>
    obtain ⟨hm, hpc⟩ := wellFormed_fetched h hw
    rw [hafter, hfault,
      Instruction.fault?_execute s.dialect hm.frame.grid hm.registers.i.1 hm.registers.dt]
    exact ⟨Instruction.wellFormed_execute s.dialect hm hpc i,
      fun f => Instruction.stopsProgram_of_failure?⟩

theorem after_loadRom (h : s.machine.WellFormed) (rom : List UInt8) :
    (s.perform (.loadRom rom)).after =
      if rom.length ≤ 3584 then
        { s with machine := { s.machine with
          memory := s.machine.memory.setBlock programStart rom } }
      else s := by
  show (s.react (s.loadRom rom)).after = _
  by_cases hr : rom.length ≤ 3584
  · rw [loadRom_of_le h hr, if_pos hr]
    rfl
  · rw [loadRom_of_lt (by omega), if_neg hr]
    rfl

theorem after_setKey (s : Interpreter ρ) (key : Int) (pressed : Bool) :
    ∃ keypad, (s.perform (.setKey key pressed)).after =
      { s with machine := { s.machine with keypad } } := by
  show ∃ keypad, (s.react (s.setKey key pressed)).after = _
  unfold setKey
  cases s.machine.keypad.setKey key pressed with
  | error e => exact ⟨s.machine.keypad, rfl⟩
  | ok keypad => exact ⟨keypad, rfl⟩

theorem after_setLit (h : s.machine.WellFormed) (x y : Int) (lit : Bool) :
    ∃ frame : Frame, frame.IsStandard ∧ (s.perform (.setLit x y lit)).after =
      { s with machine := { s.machine with frame } } := by
  show ∃ frame : Frame, _ ∧ (s.react (s.setLit x y lit)).after = _
  unfold setLit
  cases hl : s.machine.frame.setLit x y lit with
  | error e => exact ⟨s.machine.frame, h.frame, rfl⟩
  | ok frame => exact ⟨frame, Frame.isStandard_setLit h.frame hl, rfl⟩

/-- An operation that is neither a reset nor a tick leaves the stack alone, and all that is not
machine but the dialect. -/
theorem after_host_operation (h : s.machine.WellFormed) {op : Operation} (hr : op ≠ .reset)
    (ht : op ≠ .tick) :
    ∃ memory registers frame keypad dialect, (s.perform op).after =
      { s with
        machine := { s.machine with memory, registers, frame, keypad }
        dialect := dialect } := by
  cases op with
  | reset => exact absurd rfl hr
  | tick => exact absurd rfl ht
  | updateTimers | setSwitch => exact ⟨_, _, _, _, _, rfl⟩
  | loadRom rom =>
    rw [after_loadRom h]
    split <;> exact ⟨_, _, _, _, _, rfl⟩
  | setKey key pressed =>
    obtain ⟨keypad, hk⟩ := after_setKey s key pressed
    exact ⟨_, _, _, _, _, hk⟩
  | setLit x y lit =>
    obtain ⟨frame, -, hl⟩ := after_setLit h x y lit
    exact ⟨_, _, _, _, _, hl⟩

/-- Every operation keeps the machine well-formed, also when it fails. -/
theorem wellFormed_perform (s : Interpreter ρ) (op : Operation) (h : s.machine.WellFormed) :
    (s.perform op).after.machine.WellFormed := by
  cases op with
  | reset => exact wellFormed_reset h
  | tick => exact (wellFormed_tick h).1
  | updateTimers => exact wellFormed_updateTimers h
  | setSwitch => exact h
  | loadRom rom =>
    rw [after_loadRom h]
    split
    · exact ⟨(Memory.size_setBlock _ _ _).trans h.memory_size, h.registers, h.stack, h.frame⟩
    · exact h
  | setKey key pressed =>
    obtain ⟨keypad, hk⟩ := after_setKey s key pressed
    rw [hk]
    exact ⟨h.memory_size, h.registers, h.stack, h.frame⟩
  | setLit x y lit =>
    obtain ⟨frame, hframe, hl⟩ := after_setLit h x y lit
    rw [hl]
    exact ⟨h.memory_size, h.registers, h.stack, hframe⟩

theorem Reachable.wellFormed (h : s.Reachable) : s.machine.WellFormed :=
  h.induction (P := fun s => s.machine.WellFormed) wellFormed_new wellFormed_perform

/-- Every history, failed operations included, keeps the machine to its sizes and ranges, and no tick
afterwards fails but with a fault of memory, of the stack or of an illegal word. -/
theorem within_bounds_after (dialect : Dialect) (tracing : Bool) (numbers : ρ)
    (history : List Operation) :
    let s := (new dialect tracing numbers).after history
    let m := s.machine
    (m.memory.size = 4096 ∧ m.memory.top = 4095) ∧
      m.registers.v.toList.length = 16 ∧
      (0 ≤ m.registers.pc ∧ m.registers.pc ≤ 0x10FE) ∧
      (0 ≤ m.registers.i ∧ m.registers.i ≤ 0xFFFF) ∧
      (0 ≤ m.registers.dt ∧ m.registers.dt ≤ 255) ∧
      (0 ≤ m.registers.st ∧ m.registers.st ≤ 255) ∧
      m.stack.depth ≤ 16 ∧ m.stack.slots.length = 16 ∧
      (∀ a ∈ m.stack.entries, 2 ≤ a ∧ a ≤ 0x1000) ∧
      m.keypad.down.toList.length = 16 ∧
      m.frame.snapshot.size = 2048 ∧ (∀ b ∈ m.frame.snapshot, b = 0 ∨ b = 1) ∧
      ∀ f, s.tick.fault = some f → f.StopsProgram := by
  intro s m
  have hs : s.Reachable := ⟨dialect, tracing, numbers, history, rfl⟩
  have h : m.WellFormed := hs.wellFormed
  have hcap : m.stack.live.length + m.stack.spare.length = 16 := h.stack.capacity_eq
  have hsize : (m.frame.plane.size : Int) = 64 * 32 := by
    rw [← h.frame.width_eq, ← h.frame.height_eq]
    exact h.frame.grid.size_eq
  refine ⟨⟨h.memory_size, top_eq h⟩, Vector.length_toList, h.registers.pc, h.registers.i,
    h.registers.dt, h.registers.st, ?_, ?_, ?_, Vector.length_toList, ?_, ?_, (wellFormed_tick h).2⟩
  · show m.stack.live.length ≤ 16
    omega
  · rw [CallStack.length_slots]
    exact h.stack.capacity_eq
  · exact fun a ha => h.stack.live a (List.mem_reverse.1 ha)
  · show m.frame.plane.size = 2048
    omega
  · intro b hb
    obtain ⟨loc, rfl⟩ := Memory.exists_byteAt_of_mem hb
    exact h.frame.grid.bit loc

end Interpreter

end Chip8
