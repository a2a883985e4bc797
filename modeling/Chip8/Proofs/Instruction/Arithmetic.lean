import Chip8.Proofs.Instruction.Footprint

/-!
# Arithmetic on registers

The instructions that combine registers read their operands first, then write the result and last the
flag.  So the equation between operands, result and flag holds whichever registers they name, and the
flag wins where the result goes to `VF` too.  `Instruction.Sets` says that an instruction does nothing
else, and `Instruction.alu_laws` gives the equations.
-/

namespace Chip8

/-! ### Bytes -/

namespace Alu

variable (a b : UInt8)

theorem toNat_add_carry :
    (a + b).toNat + 256 * (decide (255 < a.toNat + b.toNat)).toNat = a.toNat + b.toNat := by
  have ha := a.toNat_lt
  have hb := b.toNat_lt
  rw [UInt8.toNat_add]
  by_cases h : 255 < a.toNat + b.toNat
  · simp only [h, decide_true, Bool.toNat_true]
    omega
  · simp only [h, decide_false, Bool.toNat_false]
    omega

theorem toNat_sub_borrow :
    ((a - b).toNat : Int) = a.toNat - b.toNat + 256 * (1 - (decide (b.toNat ≤ a.toNat)).toNat) := by
  have ha := a.toNat_lt
  have hb := b.toNat_lt
  rw [UInt8.toNat_sub]
  by_cases h : b.toNat ≤ a.toNat
  · simp only [h, decide_true, Bool.toNat_true]
    omega
  · simp only [h, decide_false, Bool.toNat_false]
    omega

theorem toNat_shiftRight_bit : 2 * (b >>> 1).toNat + (b.toNat.testBit 0).toNat = b.toNat := by
  rw [UInt8.toNat_shiftRight, Nat.testBit_zero]
  show 2 * b.toNat >>> 1 + _ = _
  rcases Nat.mod_two_eq_zero_or_one b.toNat with h | h
  · simp only [h, Nat.shiftRight_succ, Nat.shiftRight_zero, Nat.zero_ne_one, decide_false, Bool.toNat_false]
    omega
  · simp only [h, Nat.shiftRight_succ, Nat.shiftRight_zero, decide_true, Bool.toNat_true]
    omega

theorem toNat_shiftLeft_bit :
    (b <<< 1).toNat + 256 * (b.toNat.testBit 7).toNat = 2 * b.toNat := by
  have hb := b.toNat_lt
  rw [UInt8.toNat_shiftLeft, Nat.testBit_eq_decide_div_mod_eq]
  show b.toNat <<< 1 % 256 + 256 * (decide (b.toNat / 128 % 2 = 1)).toNat = _
  rw [Nat.shiftLeft_eq]
  by_cases h : b.toNat / 128 % 2 = 1
  · simp only [h, decide_true, Bool.toNat_true]
    omega
  · simp only [h, decide_false, Bool.toNat_false]
    omega

end Alu

namespace Instruction

variable {ρ : Type} [NumberSource ρ]

/-- Whether an instruction succeeds with putting a number into `Vx` and then perhaps a flag, 0 or 1, into
`VF`, where the flag wins, and changes nothing else. -/
def Sets (d : Dialect) (m : Machine ρ) (i : Instruction) (x : Register) (result : Nat)
    (flag : Option Nat) : Prop :=
  ∃ v : Vector UInt8 16,
    i.execute d m = .ok () { m with registers := { m.registers with v } } ∧
      (result < 256 ∧ ∀ f ∈ flag, f ≤ 1 ∧ (v.get Register.flag).toNat = f) ∧
      ∀ k, (k = Register.flag → flag = none) →
        (v.get k).toNat = if k = x then result else (m.registers.v.get k).toNat

/-! ### Results and flags -/

omit [NumberSource ρ] in
theorem toNat_flag (on : Bool) : (if on then 1 else 0 : UInt8).toNat = on.toNat := by
  cases on <;> rfl

theorem sets_of_setV (d : Dialect) {m : Machine ρ} {i : Instruction} {x : Register} {b : UInt8}
    (flag : Option Bool)
    (h : i.execute d m = .ok () { m with registers := (m.registers.setV x b).setFlag? flag }) :
    i.Sets d m x b.toNat (flag.map Bool.toNat) := by
  refine ⟨((m.registers.setV x b).setFlag? flag).v, ?_, ⟨b.toNat_lt, ?_⟩, ?_⟩
  · rw [h]
    cases flag <;> rfl
  · intro f hf
    obtain ⟨on, rfl, rfl⟩ := Option.map_eq_some_iff.1 hf
    refine ⟨by cases on <;> decide, ?_⟩
    rw [Registers.setFlag?, Registers.get_setV, if_pos rfl, toNat_flag]
  · intro k hk
    have hset : (((m.registers.setV x b).setFlag? flag).v.get k) = (m.registers.setV x b).v.get k := by
      cases flag with
      | none => rfl
      | some on =>
        have hne : k ≠ Register.flag := fun h => nomatch hk h
        rw [Registers.setFlag?, Registers.get_setV, if_neg hne]
    rw [hset, Registers.get_setV]
    split <;> rfl

theorem sets_alu (d : Dialect) (m : Machine ρ) (op : Alu) (x y : Register) :
    let a := m.registers.v.get x
    let b := m.registers.v.get (if op.isShift && d .shift then x else y)
    (alu op x y).Sets d m x (op.result a b).1.toNat ((op.flag d a b).map Bool.toNat) := by
  intro a b
  apply sets_of_setV d (op.flag d a b)
  have hx : Action.v x m = .ok a m := rfl
  have hy : Action.v (if op.isShift && d .shift then x else y) m = .ok b m := rfl
  have hset : Action.setV x (op.result a b).1 m =
      .ok () { m with registers := m.registers.setV x (op.result a b).1 } := rfl
  show executeAlu d op x y m = _
  rw [executeAlu, bind_of_ok hx, bind_of_ok hy, bind_of_ok hset]
  cases op.flag d a b <;> rfl

/-- The bitwise operations reset the flag if the dialect does so, and else leave it. -/
theorem sets_bitwise (d : Dialect) (m : Machine ρ) (op : Alu) (h : op.isBitwise = true)
    (x y : Register) :
    (alu op x y).Sets d m x (op.result (m.registers.v.get x) (m.registers.v.get y)).1.toNat
      (if d .logic then some 0 else none) := by
  have hsets := sets_alu d m op x y
  have hflag (a b : UInt8) :
      (op.flag d a b).map Bool.toNat = if d .logic then some 0 else none := by
    have hnone : (op.result a b).2 = none := by cases op <;> first | rfl | cases h
    rw [Alu.flag, h, hnone, Bool.true_and]
    split <;> rfl
  have hshift : op.isShift = false := by cases op <;> first | rfl | cases h
  simpa only [hflag, hshift, Bool.false_and, Bool.false_eq_true, if_false] using hsets

theorem sets_addByte (d : Dialect) (m : Machine ρ) (x : Register) (value : UInt8) :
    (addByte x value).Sets d m x (m.registers.v.get x + value).toNat none :=
  sets_of_setV d none rfl

/-- Adding to the index register leaves the byte registers alone, but for the flag if there is one. -/
theorem execute_addIndex (d : Dialect) (m : Machine ρ) (x : Register) :
    let sum := m.registers.i + (m.registers.v.get x).toNat
    ∃ v : Vector UInt8 16,
      (addIndex x).execute d m =
        .ok () { m with registers := { m.registers with i := sum % 65536, v } } ∧
      ∀ k, (v.get k).toNat =
        if k = Register.flag ∧ d .indexOverflow then (if 0xFFF < sum then 1 else 0)
        else (m.registers.v.get k).toNat := by
  intro sum
  have hexec : (addIndex x).execute d m =
      (if d .indexOverflow then Action.setFlag (decide (0xFFF < sum)) else pure () : Action ρ Unit)
        { m with registers := { m.registers with i := sum % 65536 } } := rfl
  cases hd : d .indexOverflow with
  | false =>
    refine ⟨m.registers.v, ?_, fun k => ?_⟩
    · rw [hexec, hd]
      rfl
    · rw [if_neg (by simp)]
  | true =>
    refine ⟨(m.registers.setV .flag (if decide (0xFFF < sum) then 1 else 0)).v, ?_, fun k => ?_⟩
    · rw [hexec, hd]
      rfl
    · rw [Registers.get_setV]
      by_cases hk : k = Register.flag
      · have hflag : k = Register.flag ∧ true = true := ⟨hk, rfl⟩
        rw [if_pos hk, if_pos hflag, toNat_flag]
        by_cases hsum : 0xFFF < sum <;> simp [hsum]
      · rw [if_neg hk, if_neg fun h => hk h.1]

/-- For any registers, also one and the same or `VF`, and in any dialect, results and flags make up the
exact sum, difference or double, and nothing else changes in the machine. -/
theorem alu_laws (d : Dialect) (m : Machine ρ) (x y : Register) :
    let a := (m.registers.v.get x).toNat
    let b := (m.registers.v.get y).toNat
    let shifted := if d .shift then a else b
    let reset : Option Nat := if d .logic then some 0 else none
    let sum := m.registers.i + a
    (∃ r f, (alu .add x y).Sets d m x r (some f) ∧ r + 256 * f = a + b) ∧
    (∃ r f, (alu .sub x y).Sets d m x r (some f) ∧ (r : Int) = a - b + 256 * (1 - f) ∧
      (f = 1 ↔ b ≤ a)) ∧
    (∃ r f, (alu .subFrom x y).Sets d m x r (some f) ∧ (r : Int) = b - a + 256 * (1 - f) ∧
      (f = 1 ↔ a ≤ b)) ∧
    (∃ r f, (alu .shiftRight x y).Sets d m x r (some f) ∧ 2 * r + f = shifted) ∧
    (∃ r f, (alu .shiftLeft x y).Sets d m x r (some f) ∧ r + 256 * f = 2 * shifted) ∧
    (alu .or x y).Sets d m x (a ||| b) reset ∧
    (alu .and x y).Sets d m x (a &&& b) reset ∧
    (alu .xor x y).Sets d m x (a ^^^ b) reset ∧
    (∀ value : UInt8, (addByte x value).Sets d m x ((a + value.toNat) % 256) none) ∧
    ∃ v : Vector UInt8 16,
      (addIndex x).execute d m =
        .ok () { m with registers := { m.registers with i := sum % 65536, v } } ∧
      ∀ k, (v.get k).toNat =
        if k = Register.flag ∧ d .indexOverflow then (if 0xFFF < sum then 1 else 0)
        else (m.registers.v.get k).toNat := by
  intro a b shifted reset sum
  have hshift (op : Alu) (h : op.isShift = true) :
      (m.registers.v.get (if op.isShift && d .shift then x else y)).toNat = shifted := by
    rw [h, Bool.true_and]
    show _ = if d .shift then _ else _
    split <;> rfl
  refine ⟨⟨_, _, sets_alu d m .add x y, ?_⟩, ⟨_, _, sets_alu d m .sub x y, ?_, ?_⟩,
    ⟨_, _, sets_alu d m .subFrom x y, ?_, ?_⟩, ⟨_, _, sets_alu d m .shiftRight x y, ?_⟩,
    ⟨_, _, sets_alu d m .shiftLeft x y, ?_⟩, ?_, ?_, ?_, ?_, execute_addIndex d m x⟩
  · exact Alu.toNat_add_carry _ _
  · exact Alu.toNat_sub_borrow _ _
  · simp [a, b, Alu.isShift]
  · exact Alu.toNat_sub_borrow _ _
  · simp [a, b, Alu.isShift]
  · rw [← hshift .shiftRight rfl]
    exact Alu.toNat_shiftRight_bit _
  · rw [← hshift .shiftLeft rfl]
    exact Alu.toNat_shiftLeft_bit _
  · have h := sets_bitwise d m .or rfl x y
    rwa [Alu.result, UInt8.toNat_or] at h
  · have h := sets_bitwise d m .and rfl x y
    rwa [Alu.result, UInt8.toNat_and] at h
  · have h := sets_bitwise d m .xor rfl x y
    rwa [Alu.result, UInt8.toNat_xor] at h
  · intro value
    have h := sets_addByte d m x value
    rwa [UInt8.toNat_add] at h

end Instruction

end Chip8
