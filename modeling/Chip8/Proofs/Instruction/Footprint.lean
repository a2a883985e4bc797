import Chip8.Proofs.Instruction.Decoding
import Chip8.Proofs.Instruction.Outcome

/-!
# What a word may change

`Machine.Footprint` lists, part by part, what executing a word may change in the machine, whether or not
it fails.  The lists are negative: a part differs afterwards only for the words named there.  Every word
keeps to its footprint (`footprint_execute`), and so does a word that is no instruction
(`footprint_of_illegal`), since it changes nothing.
-/

namespace Chip8

/-! ### Registers -/

namespace Registers

variable (r : Registers)

@[simp] theorem v_skipIf (condition : Bool) : (r.skipIf condition).v = r.v := by
  cases condition <;> rfl

@[simp] theorem i_skipIf (condition : Bool) : (r.skipIf condition).i = r.i := by
  cases condition <;> rfl

@[simp] theorem dt_skipIf (condition : Bool) : (r.skipIf condition).dt = r.dt := by
  cases condition <;> rfl

@[simp] theorem st_skipIf (condition : Bool) : (r.skipIf condition).st = r.st := by
  cases condition <;> rfl

@[simp] theorem i_setFlag? (flag : Option Bool) : (r.setFlag? flag).i = r.i := by
  cases flag <;> rfl

@[simp] theorem pc_setFlag? (flag : Option Bool) : (r.setFlag? flag).pc = r.pc := by
  cases flag <;> rfl

@[simp] theorem dt_setFlag? (flag : Option Bool) : (r.setFlag? flag).dt = r.dt := by
  cases flag <;> rfl

@[simp] theorem st_setFlag? (flag : Option Bool) : (r.setFlag? flag).st = r.st := by
  cases flag <;> rfl

@[simp] theorem v_advance (d : Dialect) (count : Nat) : (r.advance d count).v = r.v := by
  unfold advance
  split <;> rfl

@[simp] theorem pc_advance (d : Dialect) (count : Nat) : (r.advance d count).pc = r.pc := by
  unfold advance
  split <;> rfl

@[simp] theorem dt_advance (d : Dialect) (count : Nat) : (r.advance d count).dt = r.dt := by
  unfold advance
  split <;> rfl

@[simp] theorem st_advance (d : Dialect) (count : Nat) : (r.advance d count).st = r.st := by
  unfold advance
  split <;> rfl

theorem i_advance_of_ne {d : Dialect} {count : Nat} (h : (r.advance d count).i ≠ r.i) :
    d .load = true := by
  cases hd : d .load with
  | true => rfl
  | false => exact absurd (by rw [advance, hd]; rfl) h

theorem pc_skipIf_of_ne {condition : Bool} (h : (r.skipIf condition).pc ≠ r.pc) :
    condition = true ∧ (r.skipIf condition).pc = r.pc + 2 := by
  cases condition with
  | false => exact absurd rfl h
  | true => exact ⟨rfl, rfl⟩

theorem get_setV (x : Register) (b : UInt8) (k : Register) :
    (r.setV x b).v.get k = if k = x then b else r.v.get k := by
  rw [setV, Key.get_set]
  simp only [Fin.ext_iff, eq_comm]

theorem eq_of_get_setV_ne {x k : Register} {b : UInt8}
    (h : (r.setV x b).v.get k ≠ r.v.get k) : k = x := by
  by_cases hk : k = x
  · exact hk
  · exact absurd (by rw [get_setV, if_neg hk]) h

theorem of_get_setFlag?_ne {flag : Option Bool} {k : Register}
    (h : (r.setFlag? flag).v.get k ≠ r.v.get k) : k = .flag ∧ flag.isSome := by
  cases flag with
  | none => exact absurd rfl h
  | some on => exact ⟨eq_of_get_setV_ne r h, rfl⟩

end Registers

/-! ### What a word may change -/

namespace Opcode

variable {ρ : Type}

/-- Whether a word puts something into the register `Vx` alone, or into `Vx` and the flag register. -/
def SetsX (c : Opcode) : Prop :=
  c.family.val ∈ [0x6, 0x7, 0x8, 0xC] ∨ c.HasByte 0xF 0x07 ∨ c.HasByte 0xF 0x0A

/-- Whether a word may set the flag register: `8xy1` to `8xy7`, `8xyE`, `Dxyn` or `Fx1E`. -/
def SetsFlag (c : Opcode) : Prop :=
  (c.family.val = 0x8 ∧ c.nibble.val ∈ [0x1, 0x2, 0x3, 0x4, 0x5, 0x6, 0x7, 0xE]) ∨
    c.family.val = 0xD ∨ c.HasByte 0xF 0x1E

/-- Whether a word tests something that holds in a machine, and so skips the next word. -/
def Skips (c : Opcode) (m : Machine ρ) : Prop :=
  let v := m.registers.v.get
  (c.family.val = 0x3 ∧ v c.x = c.byte) ∨ (c.family.val = 0x4 ∧ v c.x ≠ c.byte) ∨
    (c.family.val = 0x5 ∧ v c.x = v c.y) ∨ (c.family.val = 0x9 ∧ v c.x ≠ v c.y) ∨
    (c.HasByte 0xE 0x9E ∧ m.keypad.isDown (v c.x).toNat = true) ∨
    (c.HasByte 0xE 0xA1 ∧ m.keypad.isDown (v c.x).toNat = false)

/-- Whether a word goes to another place: a return, a jump, a call, or a jump with an offset. -/
def Goes (c : Opcode) : Prop := c.HasByte 0x0 0xEE ∨ c.family.val ∈ [0x1, 0x2, 0xB]

end Opcode

variable {ρ : Type} [NumberSource ρ]

/-- What executing the word `c` may change in the machine `m`, whose counter stands behind the word.  The
execution leaves `m'`, and ends with `fault` if it fails. -/
structure Machine.Footprint (d : Dialect) (c : Opcode) (m m' : Machine ρ) (fault : Option Fault) :
    Prop where
  memory_size : m'.memory.size = m.memory.size
  memory : ∀ a : Int, 0 ≤ a → m'.memory.byteAt a ≠ m.memory.byteAt a → m.registers.i ≤ a ∧
    ((c.HasByte 0xF 0x33 ∧ a < m.registers.i + 3) ∨
      (c.HasByte 0xF 0x55 ∧ a ≤ m.registers.i + c.x.val))
  frame : m'.frame ≠ m.frame → c.HasByte 0x0 0xE0 ∨ c.family.val = 0xD
  stack : m'.stack ≠ m.stack → fault = none ∧ (c.family.val = 0x2 ∨ c.HasByte 0x0 0xEE)
  keypad : m'.keypad = m.keypad
  numbers : m'.numbers =
    if c.family.val = 0xC then (NumberSource.draw m.numbers).2 else m.numbers
  index : m'.registers.i ≠ m.registers.i →
    c.family.val = 0xA ∨ c.HasByte 0xF 0x1E ∨ c.HasByte 0xF 0x29 ∨
      (d .load = true ∧ fault = none ∧ (c.HasByte 0xF 0x55 ∨ c.HasByte 0xF 0x65))
  delay : m'.registers.dt ≠ m.registers.dt → c.HasByte 0xF 0x15
  sound : m'.registers.st ≠ m.registers.st → c.HasByte 0xF 0x18
  v : ∀ k, m'.registers.v.get k ≠ m.registers.v.get k →
    (k = c.x ∧ c.SetsX) ∨ (k = Register.flag ∧ c.SetsFlag) ∨ (k ≤ c.x ∧ c.HasByte 0xF 0x65)
  random : c.family.val = 0xC →
    m'.registers.v.get c.x = UInt8.ofInt (NumberSource.draw m.numbers).1 &&& c.byte
  /-- The counter moves on from behind the word, past another one or back to the word. -/
  counter : m'.registers.pc ≠ m.registers.pc →
    c.Goes ∨ (c.Skips m ∧ m'.registers.pc = m.registers.pc + 2) ∨
      (c.HasByte 0xF 0x0A ∧ (∀ k, m.keypad.down.get k = false) ∧
        m'.registers.pc = m.registers.pc - 2)

namespace Instruction

open Opcode

variable {d : Dialect} {m : Machine ρ} {c : Opcode} {i : Instruction}

omit [NumberSource ρ] in
theorem frame_of_ne (hr : c.Reads i) (h : i.frameAfter m ≠ m.frame) : c.HasByte 0x0 0xE0 := by
  cases i with
  | clearFrame => exact hr
  | _ => exact absurd rfl h

omit [NumberSource ρ] in
theorem stack_of_ne (hr : c.Reads i) (h : i.stackAfter m ≠ m.stack) :
    c.family.val = 0x2 ∨ c.HasByte 0x0 0xEE := by
  cases i with
  | ret => exact Or.inr hr
  | call target => exact Or.inl hr.1
  | _ => exact absurd rfl h

omit [NumberSource ρ] in
theorem block_of_mem (hr : c.Reads i) {a : Int} (h₀ : 0 ≤ m.registers.i) (ha : 0 ≤ a)
    (h : (i.memoryAfter m).byteAt a ≠ m.memory.byteAt a) : m.registers.i ≤ a ∧
      ((c.HasByte 0xF 0x33 ∧ a < m.registers.i + 3) ∨
        (c.HasByte 0xF 0x55 ∧ a ≤ m.registers.i + c.x.val)) := by
  have hin : m.registers.i ≤ a ∧ a < m.registers.i + (i.blockWritten m.registers).length := by
    by_cases hout : a.toNat < m.registers.i.toNat ∨
        m.registers.i.toNat + (i.blockWritten m.registers).length ≤ a.toNat
    · exact absurd (Memory.byteAt_setBlock_of_outside m.memory hout) h
    · omega
  refine ⟨hin.1, ?_⟩
  cases i with
  | storeDigits x => exact Or.inl ⟨hr.1, hin.2⟩
  | store x =>
    obtain ⟨hb, rfl⟩ := hr
    have hlt := hin.2
    rw [blockWritten, length_stored] at hlt
    exact Or.inr ⟨hb, by omega⟩
  | _ =>
    simp only [blockWritten, List.length_nil] at hin
    omega

omit [NumberSource ρ] in
theorem eq_random_of_family (hr : c.Reads i) (hf : c.family.val = 0xC) : i = random c.x c.byte :=
  reads_unique hr ⟨hf, rfl, rfl⟩

theorem numbersAfter_eq (hr : c.Reads i) :
    i.numbersAfter m =
      if c.family.val = 0xC then (NumberSource.draw m.numbers).2 else m.numbers := by
  by_cases hf : c.family.val = 0xC
  · rw [if_pos hf, eq_random_of_family hr hf]
    rfl
  · rw [if_neg hf]
    cases i with
    | random => exact absurd hr.1 hf
    | _ => rfl

/-- Awaiting a key takes one that is down, or steps back if none is. -/
theorem awaitKey_cases (d : Dialect) (m : Machine ρ) (x : Register) :
    (∃ b, (awaitKey x).registersAfter d m = m.registers.setV x b) ∨
      (∀ k, m.keypad.down.get k = false) ∧
        (awaitKey x).registersAfter d m = { m.registers with pc := m.registers.pc - 2 } := by
  simp only [registersAfter]
  split
  · next hup => exact Or.inr ⟨(Keypad.firstPressed_eq_none_iff _).1 hup, rfl⟩
  · exact Or.inl ⟨_, rfl⟩

theorem index_of_ne (hr : c.Reads i) (h : (i.registersAfter d m).i ≠ m.registers.i) :
    c.family.val = 0xA ∨ c.HasByte 0xF 0x1E ∨ c.HasByte 0xF 0x29 ∨
      (d .load = true ∧ (c.HasByte 0xF 0x55 ∨ c.HasByte 0xF 0x65)) := by
  cases i with
  | setIndex => exact Or.inl hr.1
  | addIndex => exact Or.inr (Or.inl hr.1)
  | glyph => exact Or.inr (Or.inr (Or.inl hr.1))
  | store => exact Or.inr (Or.inr (Or.inr ⟨Registers.i_advance_of_ne _ h, Or.inl hr.1⟩))
  | load x =>
    exact Or.inr (Or.inr (Or.inr ⟨Registers.i_advance_of_ne { m.registers with v := _ } h,
      Or.inr hr.1⟩))
  | awaitKey x =>
    rcases awaitKey_cases d m x with ⟨_, he⟩ | ⟨-, he⟩ <;> exact absurd (congrArg Registers.i he) h
  | _ => exact absurd (by simp [registersAfter, Registers.setV]) h

theorem delay_of_ne (hr : c.Reads i) (h : (i.registersAfter d m).dt ≠ m.registers.dt) :
    c.HasByte 0xF 0x15 := by
  cases i with
  | setDelay => exact hr.1
  | awaitKey x =>
    rcases awaitKey_cases d m x with ⟨_, he⟩ | ⟨-, he⟩ <;> exact absurd (congrArg Registers.dt he) h
  | _ => exact absurd (by simp [registersAfter, Registers.setV]) h

theorem sound_of_ne (hr : c.Reads i) (h : (i.registersAfter d m).st ≠ m.registers.st) :
    c.HasByte 0xF 0x18 := by
  cases i with
  | setSound => exact hr.1
  | awaitKey x =>
    rcases awaitKey_cases d m x with ⟨_, he⟩ | ⟨-, he⟩ <;> exact absurd (congrArg Registers.st he) h
  | _ => exact absurd (by simp [registersAfter, Registers.setV]) h

theorem length_cut_le {m : Memory} {loc : Int} (h₀ : 0 ≤ loc) (n : Nat) :
    (m.cut loc (loc + n)).length ≤ n := by
  rw [Memory.cut, Array.length_toList, Array.size_extract]
  unfold Memory.cutPosition
  rw [if_neg (by omega), if_neg (by omega)]
  omega

theorem get_replaceV (old : Vector UInt8 16) (block : List UInt8) (k : Register) :
    (replaceV old block).get k = block.getD k.val (old.get k) :=
  Vector.getElem_ofFn k.isLt

theorem get_replaceV_of_le (old : Vector UInt8 16) {block : List UInt8} {k : Register}
    (h : block.length ≤ k.val) : (replaceV old block).get k = old.get k := by
  rw [get_replaceV, List.getD_eq_getElem?_getD, List.getElem?_eq_none h, Option.getD_none]

theorem v_of_ne (hr : c.Reads i) (h₀ : 0 ≤ m.registers.i) {k : Register}
    (h : (i.registersAfter d m).v.get k ≠ m.registers.v.get k) :
    (k = c.x ∧ c.SetsX) ∨ (k = .flag ∧ c.SetsFlag) ∨ (k ≤ c.x ∧ c.HasByte 0xF 0x65) := by
  cases i with
  | setByte x | addByte x | random x =>
    obtain ⟨hf, rfl, -⟩ := hr
    exact Or.inl ⟨Registers.eq_of_get_setV_ne _ h, Or.inl (by simp [hf])⟩
  | getDelay x =>
    obtain ⟨hb, rfl⟩ := hr
    exact Or.inl ⟨Registers.eq_of_get_setV_ne _ h, Or.inr (Or.inl hb)⟩
  | awaitKey x =>
    obtain ⟨hb, rfl⟩ := hr
    rcases awaitKey_cases d m c.x with ⟨b, he⟩ | ⟨-, he⟩
    · rw [he] at h
      exact Or.inl ⟨Registers.eq_of_get_setV_ne _ h, Or.inr (Or.inr hb)⟩
    · exact absurd (by rw [he]) h
  | alu op x y =>
    obtain ⟨hf, hn, rfl, -⟩ := hr
    by_cases hk : k = c.x
    · exact Or.inl ⟨hk, Or.inl (by simp [hf])⟩
    · -- beside its result, an operation sets the flag, which copying does not
      have hflag := Registers.of_get_setFlag?_ne (m.registers.setV c.x _) (k := k) fun he =>
        h (he.trans (by rw [Registers.get_setV, if_neg hk]))
      refine Or.inr (Or.inl ⟨hflag.1, Or.inl ⟨hf, ?_⟩⟩)
      rw [hn]
      cases op with
      | copy => cases hflag.2
      | _ => decide
  | addIndex x =>
    have hflag := Registers.of_get_setFlag?_ne { m.registers with i := _ } h
    exact Or.inr (Or.inl ⟨hflag.1, Or.inr (Or.inr hr.1)⟩)
  | load x =>
    obtain ⟨hb, rfl⟩ := hr
    refine Or.inr (Or.inr ⟨?_, hb⟩)
    simp only [registersAfter, Registers.v_advance] at h
    by_cases hk : k ≤ c.x
    · exact hk
    · have hlen := length_cut_le (m := m.memory) h₀ (c.x.val + 1)
      have hlt : c.x.val < k.val := Fin.not_le.1 hk
      exact absurd (get_replaceV_of_le m.registers.v (Nat.le_trans hlen hlt)) h
  | _ => exact absurd (by simp [registersAfter]) h

theorem counter_of_ne (hr : c.Reads i) (h : (i.registersAfter d m).pc ≠ m.registers.pc) :
    c.Goes ∨ (c.Skips m ∧ (i.registersAfter d m).pc = m.registers.pc + 2) ∨
      (c.HasByte 0xF 0x0A ∧ (∀ k, m.keypad.down.get k = false) ∧
        (i.registersAfter d m).pc = m.registers.pc - 2) := by
  cases i with
  | ret => exact Or.inl (Or.inl hr)
  | jump | call | jumpPlus => exact Or.inl (Or.inr (by simp [hr.1]))
  | skipIfByte x value =>
    obtain ⟨hf, rfl, rfl⟩ := hr
    obtain ⟨hc, hpc⟩ := Registers.pc_skipIf_of_ne _ h
    exact Or.inr (Or.inl ⟨Or.inl ⟨hf, eq_of_beq hc⟩, hpc⟩)
  | skipUnlessByte x value =>
    obtain ⟨hf, rfl, rfl⟩ := hr
    obtain ⟨hc, hpc⟩ := Registers.pc_skipIf_of_ne _ h
    exact Or.inr (Or.inl ⟨Or.inr (Or.inl ⟨hf, bne_iff_ne.1 hc⟩), hpc⟩)
  | skipIfSame x y =>
    obtain ⟨hf, rfl, rfl⟩ := hr
    obtain ⟨hc, hpc⟩ := Registers.pc_skipIf_of_ne _ h
    exact Or.inr (Or.inl ⟨Or.inr (Or.inr (Or.inl ⟨hf, eq_of_beq hc⟩)), hpc⟩)
  | skipUnlessSame x y =>
    obtain ⟨hf, rfl, rfl⟩ := hr
    obtain ⟨hc, hpc⟩ := Registers.pc_skipIf_of_ne _ h
    exact Or.inr (Or.inl ⟨Or.inr (Or.inr (Or.inr (Or.inl ⟨hf, bne_iff_ne.1 hc⟩))), hpc⟩)
  | skipIfKey x =>
    obtain ⟨hb, rfl⟩ := hr
    obtain ⟨hc, hpc⟩ := Registers.pc_skipIf_of_ne _ h
    exact Or.inr (Or.inl ⟨Or.inr (Or.inr (Or.inr (Or.inr (Or.inl ⟨hb, hc⟩)))), hpc⟩)
  | skipUnlessKey x =>
    obtain ⟨hb, rfl⟩ := hr
    obtain ⟨hc, hpc⟩ := Registers.pc_skipIf_of_ne _ h
    exact Or.inr (Or.inl
      ⟨Or.inr (Or.inr (Or.inr (Or.inr (Or.inr ⟨hb, by simpa using hc⟩)))), hpc⟩)
  | awaitKey x =>
    rcases awaitKey_cases d m x with ⟨_, he⟩ | ⟨hup, he⟩
    · exact absurd (congrArg Registers.pc he) h
    · exact Or.inr (Or.inr ⟨hr.1, hup, congrArg Registers.pc he⟩)
  | _ => exact absurd (by simp [registersAfter, Registers.setV]) h

theorem get_random (hr : c.Reads i) (hf : c.family.val = 0xC) :
    (i.registersAfter d m).v.get c.x =
      UInt8.ofInt (NumberSource.draw m.numbers).1 &&& c.byte := by
  rw [eq_random_of_family hr hf]
  simp only [registersAfter, Registers.get_setV, if_true]

/-! ### Every word keeps to its footprint -/

/-- A word that draws no number keeps to every footprint if it changes nothing. -/
theorem footprint_refl (d : Dialect) (hf : c.family.val ≠ 0xC) (fault : Option Fault) :
    m.Footprint d c m fault where
  memory_size := rfl
  memory _ _ h := absurd rfl h
  frame h := absurd rfl h
  stack h := absurd rfl h
  keypad := rfl
  numbers := (if_neg hf).symm
  index h := absurd rfl h
  delay h := absurd rfl h
  sound h := absurd rfl h
  v _ h := absurd rfl h
  random h := absurd h hf
  counter h := absurd rfl h

theorem footprint_of_illegal (d : Dialect) (h : c.IsIllegal) (fault : Option Fault) :
    m.Footprint d c m fault := by
  apply footprint_refl
  rcases h with ⟨hf, -⟩ | ⟨hf, -⟩ | ⟨hf, -⟩ | ⟨hf, -⟩ <;> omega

theorem footprint_machineAfter (d : Dialect) (hr : c.Reads i) (h₀ : 0 ≤ m.registers.i) :
    m.Footprint d c (i.machineAfter d m) none where
  memory_size := Memory.size_setBlock _ _ _
  memory a ha h := block_of_mem hr h₀ ha h
  frame h := Or.inl (frame_of_ne hr h)
  stack h := ⟨rfl, stack_of_ne hr h⟩
  keypad := rfl
  numbers := numbersAfter_eq hr
  index h := by
    rcases index_of_ne hr h with h | h | h | ⟨hd, h⟩
    · exact Or.inl h
    · exact Or.inr (Or.inl h)
    · exact Or.inr (Or.inr (Or.inl h))
    · exact Or.inr (Or.inr (Or.inr ⟨hd, rfl, h⟩))
  delay h := delay_of_ne hr h
  sound h := sound_of_ne hr h
  v k h := v_of_ne hr h₀ h
  random := get_random hr
  counter h := counter_of_ne hr h

/-- A word that draws changes the frame and the flag register at most. -/
theorem footprint_of_draws (d : Dialect) (hf : c.family.val = 0xD) (frame : Frame) (flag : Option Bool)
    (fault : Option Fault) :
    m.Footprint d c { m with frame, registers := m.registers.setFlag? flag } fault where
  memory_size := rfl
  memory _ _ h := absurd rfl h
  frame _ := Or.inr hf
  stack h := absurd rfl h
  keypad := rfl
  numbers := (if_neg (by omega)).symm
  index h := absurd (Registers.i_setFlag? _ _) h
  delay h := absurd (Registers.dt_setFlag? _ _) h
  sound h := absurd (Registers.st_setFlag? _ _) h
  v k h := Or.inr (Or.inl ⟨(Registers.of_get_setFlag?_ne _ h).1, Or.inr (Or.inl hf)⟩)
  random h := by omega
  counter h := absurd (Registers.pc_setFlag? _ _) h

/-- Executing a word keeps to its footprint, whether or not it fails. -/
theorem footprint_execute (d : Dialect) (hr : c.Reads i) (hf : m.frame.IsGrid)
    (hi : 0 ≤ m.registers.i) (hdt : 0 ≤ m.registers.dt ∧ m.registers.dt ≤ 0xFF) :
    m.Footprint d c (Action.left (i.execute d) m) (Action.fault? (i.execute d) m) := by
  cases outcome d hf hi hdt i with
  | failed f _ hfail he =>
    rw [(Action.outcome_of_error he).1]
    apply footprint_refl
    intro hC
    rw [eq_random_of_family hr hC] at hfail
    cases hfail
  | done _ _ he =>
    rw [(Action.outcome_of_ok he).1, (Action.outcome_of_ok he).2]
    exact footprint_machineAfter d hr hi
  | drawn x y n erased g hdraw _ _ _ he =>
    rw [(Action.outcome_of_ok he).1]
    subst hdraw
    exact footprint_of_draws d hr.1 g (some erased) _
  | cut x y n f g hdraw _ _ _ he =>
    rw [(Action.outcome_of_error he).1]
    subst hdraw
    exact footprint_of_draws d hr.1 g none _

end Instruction

end Chip8
