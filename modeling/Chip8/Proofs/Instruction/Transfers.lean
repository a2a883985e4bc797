import Mathlib.Data.List.GetD
import Chip8.Proofs.Instruction.Footprint
import Chip8.Proofs.Interpreter.Bounds

/-!
# Moving registers to memory and back

Storing registers rewrites a block of memory (`Memory.Rewritten`), and loading as many from there brings
them back.  Neither wraps the index register, so in the dialects where it moves along, stores in turn
rewrite blocks side by side (`Instruction.StoredInTurn`).  `Interpreter.transfers_round_trip` says so of
every state that a program can reach.
-/

namespace Chip8

/-! ### Blocks of memory -/

namespace Memory

/-- The bank `m'` is `m` with a block put at `loc`. -/
structure Rewritten (m : Memory) (loc : Int) (block : List UInt8) (m' : Memory) : Prop where
  size_eq : m'.size = m.size
  inside : ∀ k < block.length, m'.byteAt (loc + (k : Int)) = block.getD k 0
  outside : ∀ a, 0 ≤ a → a < loc ∨ loc + block.length ≤ a → m'.byteAt a = m.byteAt a

theorem rewritten_setBlock (m : Memory) {loc : Int} {block : List UInt8} (h₀ : 0 ≤ loc)
    (h : loc + block.length ≤ m.size) : m.Rewritten loc block (m.setBlock loc.toNat block) where
  size_eq := size_setBlock ..
  inside k hk := by
    rw [byteAt_setBlock, if_pos (by omega)]
    congr 1
    omega
  outside a ha hout := byteAt_setBlock_of_outside m (by omega)

theorem Rewritten.refl (m : Memory) (loc : Int) : m.Rewritten loc [] m where
  size_eq := rfl
  inside k hk := absurd hk (Nat.not_lt_zero k)
  outside _ _ _ := rfl

/-- Two blocks side by side are one block. -/
theorem Rewritten.append {m m' m'' : Memory} {loc : Int} {a b : List UInt8} (h₀ : 0 ≤ loc)
    (h : m.Rewritten loc a m') (h' : m'.Rewritten (loc + a.length) b m'') :
    m.Rewritten loc (a ++ b) m'' where
  size_eq := h'.size_eq.trans h.size_eq
  inside k hk := by
    rw [List.length_append] at hk
    by_cases hka : k < a.length
    · rw [h'.outside _ (by omega) (by omega), h.inside k hka, List.getD_append _ _ _ _ hka]
    · have hloc : loc + (k : Int) = loc + a.length + (k - a.length : Nat) := by omega
      rw [hloc, h'.inside _ (by omega), List.getD_append_right _ _ _ _ (by omega)]
  outside c hc hout := by
    rw [List.length_append] at hout
    rw [h'.outside c hc (by omega), h.outside c hc (by omega)]

theorem getD_cut (m : Memory) {loc : Int} {n k : Nat} (h₀ : 0 ≤ loc) (h : loc + n ≤ m.size)
    (hk : k < n) (b : UInt8) : (m.cut loc (loc + n)).getD k b = m.byteAt (loc + k) := by
  rw [cut_eq_map m h₀ h]
  simp [List.getD_eq_getElem?_getD, hk]

end Memory

/-- How far the index register moves along when `V0` to `Vx` are moved. -/
def Dialect.stride (d : Dialect) (x : Register) : Nat := if d .load then x.val + 1 else 0

namespace Registers

variable (r : Registers)

/-- The bytes of `V0` to `Vx`. -/
def upTo (x : Register) : List UInt8 := r.v.toList.take (x.val + 1)

@[simp] theorem length_upTo (x : Register) : (r.upTo x).length = x.val + 1 :=
  Instruction.length_stored r.v x

theorem getD_upTo {x k : Register} (h : k ≤ x) (b : UInt8) : (r.upTo x).getD k.val b = r.v.get k := by
  have hk : k.val < x.val + 1 := Nat.lt_succ_of_le h
  simp [upTo, List.getD_eq_getElem?_getD, hk]
  rfl

theorem advance_eq (d : Dialect) {x : Register} (h₀ : 0 ≤ r.i) (h : r.i + (x.val + 1) ≤ 0xFFFF) :
    r.advance d (x.val + 1) = { r with i := r.i + d.stride x } := by
  rw [advance, Dialect.stride]
  split
  · rw [wrapIndex, Int.emod_eq_of_lt (by omega) (by omega)]
  · simp

end Registers

namespace Instruction

variable {ρ : Type}

theorem toNat_digits (b : UInt8) :
    ∃ hundreds tens units : UInt8, digits b = [hundreds, tens, units] ∧
      (hundreds.toNat ≤ 9 ∧ tens.toNat ≤ 9 ∧ units.toNat ≤ 9) ∧
      100 * hundreds.toNat + 10 * tens.toNat + units.toNat = b.toNat := by
  have hb := b.toNat_lt
  have htens : (b / 10 % 10).toNat = b.toNat / 10 % 10 := rfl
  have hhundreds : (b / 100).toNat = b.toNat / 100 := rfl
  have hunits : (b % 10).toNat = b.toNat % 10 := rfl
  refine ⟨b / 100, b / 10 % 10, b % 10, rfl, ?_⟩
  rw [htens, hhundreds, hunits]
  omega

variable [NumberSource ρ] {d : Dialect} {m m' : Machine ρ} {x : Register}

/-- An instruction that moves a block succeeds only if the block lies in memory. -/
theorem span_le_of_ok {i : Instruction} (hd : i.isDraw = false) (hs : i.span ≠ 0)
    (h : i.execute d m = .ok () m') : m.registers.i + i.span ≤ m.memory.size := by
  refine Int.not_lt.1 fun hlt => ?_
  have hfail := failure?_of_span m hd hs
  rw [if_pos hlt] at hfail
  rw [execute_of_failure d m hd hfail] at h
  cases h

theorem execute_store (hi : 0 ≤ m.registers.i) (hm : m.memory.size ≤ 0xFFFF)
    (h : m.registers.i + (x.val + 1) ≤ m.memory.size) :
    (store x).execute d m = .ok () { m with
      memory := m.memory.setBlock m.registers.i.toNat (m.registers.upTo x)
      registers := { m.registers with i := m.registers.i + d.stride x } } := by
  have hblock : m.registers.i + (m.registers.upTo x).length ≤ m.memory.size := by
    rw [Registers.length_upTo]
    exact h
  rw [← Registers.advance_eq m.registers d hi (by omega)]
  exact bind_of_ok (writeAtIndex_of_le hi hblock)

theorem execute_load (hi : 0 ≤ m.registers.i) (hm : m.memory.size ≤ 0xFFFF)
    (h : m.registers.i + (x.val + 1) ≤ m.memory.size) :
    ∃ v : Vector UInt8 16,
      (load x).execute d m = .ok () { m with
        registers := { m.registers with v, i := m.registers.i + d.stride x } } ∧
      ∀ k, v.get k =
        if k ≤ x then m.memory.byteAt (m.registers.i + k.val) else m.registers.v.get k := by
  have hbound : m.registers.i + (x.val + 1) ≤ 0xFFFF := by omega
  let v := replaceV m.registers.v (m.memory.cut m.registers.i (m.registers.i + (x.val + 1)))
  have hadvance := Registers.advance_eq { m.registers with v } d hi hbound
  refine ⟨v, ?_, ?_⟩
  · rw [← hadvance]
    exact bind_of_ok (attempt_of_ok (Memory.readBlock_of_le m.memory hi h) m)
  · intro k
    by_cases hk : k ≤ x
    · rw [if_pos hk, get_replaceV]
      exact Memory.getD_cut m.memory (n := x.val + 1) hi h (Nat.lt_succ_of_le hk) _
    · have hlength := length_cut_le (m := m.memory) hi (x.val + 1)
      have hk' : x.val < k.val := Nat.lt_of_not_le hk
      rw [if_neg hk]
      exact get_replaceV_of_le _ (Nat.le_trans hlength hk')

theorem execute_storeDigits (hi : 0 ≤ m.registers.i) (h : m.registers.i + 3 ≤ m.memory.size) :
    (storeDigits x).execute d m = .ok () { m with
      memory := m.memory.setBlock m.registers.i.toNat (digits (m.registers.v.get x)) } :=
  writeAtIndex_of_le hi h

/-- What storing registers does if it succeeds. -/
theorem stored_of_ok (hi : 0 ≤ m.registers.i) (hm : m.memory.size ≤ 0xFFFF)
    (h : (store x).execute d m = .ok () m') :
    m.registers.i + (x.val + 1) ≤ m.memory.size ∧
      m.memory.Rewritten m.registers.i (m.registers.upTo x) m'.memory ∧
      m' = { m with
        memory := m'.memory
        registers := { m.registers with i := m.registers.i + d.stride x } } := by
  have hspan : m.registers.i + (x.val + 1) ≤ m.memory.size :=
    span_le_of_ok (i := store x) rfl (Nat.succ_ne_zero _) h
  have hblock : m.registers.i + (m.registers.upTo x).length ≤ m.memory.size := by
    rw [Registers.length_upTo]
    exact hspan
  rw [execute_store hi hm hspan, EStateM.Result.ok.injEq] at h
  obtain ⟨-, rfl⟩ := h
  exact ⟨hspan, Memory.rewritten_setBlock m.memory hi hblock, rfl⟩

/-- What loading registers does if it succeeds. -/
theorem loaded_of_ok (hi : 0 ≤ m.registers.i) (hm : m.memory.size ≤ 0xFFFF)
    (h : (load x).execute d m = .ok () m') :
    m.registers.i + (x.val + 1) ≤ m.memory.size ∧
      ∃ v : Vector UInt8 16,
        m' = { m with registers := { m.registers with v, i := m.registers.i + d.stride x } } ∧
        ∀ k, v.get k =
          if k ≤ x then m.memory.byteAt (m.registers.i + k.val) else m.registers.v.get k := by
  have hspan : m.registers.i + (x.val + 1) ≤ m.memory.size :=
    span_le_of_ok (i := load x) rfl (Nat.succ_ne_zero _) h
  obtain ⟨v, hload, hv⟩ := execute_load (d := d) (x := x) hi hm hspan
  rw [h, EStateM.Result.ok.injEq] at hload
  exact ⟨hspan, v, hload.2, hv⟩

/-- What storing the digits of a register does if it succeeds. -/
theorem storedDigits_of_ok (hi : 0 ≤ m.registers.i) (h : (storeDigits x).execute d m = .ok () m') :
    m.registers.i + 3 ≤ m.memory.size ∧
      m.memory.Rewritten m.registers.i (digits (m.registers.v.get x)) m'.memory ∧
      m' = { m with memory := m'.memory } := by
  have hspan : m.registers.i + 3 ≤ m.memory.size :=
    span_le_of_ok (i := storeDigits x) rfl (Nat.succ_ne_zero _) h
  rw [execute_storeDigits hi hspan, EStateM.Result.ok.injEq] at h
  obtain ⟨-, rfl⟩ := h
  exact ⟨hspan, Memory.rewritten_setBlock m.memory hi hspan, rfl⟩

/-- Loading the registers that were stored, from where they were stored, restores them. -/
theorem load_after_store {d' : Dialect} {m₁ : Machine ρ} (hi : 0 ≤ m.registers.i)
    (hm : m.memory.size ≤ 0xFFFF) (h : (store x).execute d m = .ok () m')
    (hmemory : m₁.memory = m'.memory) (hindex : m₁.registers.i = m.registers.i) :
    ∃ v : Vector UInt8 16,
      (load x).execute d' m₁ = .ok () { m₁ with
        registers := { m₁.registers with v, i := m.registers.i + d'.stride x } } ∧
      ∀ k, v.get k = if k ≤ x then m.registers.v.get k else m₁.registers.v.get k := by
  obtain ⟨hspan, hrewritten, -⟩ := stored_of_ok hi hm h
  have hsize : m₁.memory.size = m.memory.size := by rw [hmemory, hrewritten.size_eq]
  obtain ⟨v, hload, hv⟩ := execute_load (d := d') (m := m₁) (x := x) (by omega) (by omega) (by omega)
  rw [hindex] at hload hv
  refine ⟨v, hload, fun k => ?_⟩
  rw [hv]
  split
  · next hk =>
    have hin : k.val < (m.registers.upTo x).length := by
      rw [Registers.length_upTo]
      exact Nat.lt_succ_of_le hk
    rw [hmemory, hrewritten.inside k.val hin, Registers.getD_upTo m.registers hk]
  · rfl

/-! ### Stores in turn -/

/-- Stores succeed in turn where the index register moves along, with anything but that register and the
memory changed in between; the list has the last register of each, with the registers before it. -/
inductive StoredInTurn : Machine ρ → List (Register × Registers) → Machine ρ → Prop
  | nil (m : Machine ρ) : StoredInTurn m [] m
  | cons {m m₁ m₂ m' : Machine ρ} {turns : List (Register × Registers)} (d : Dialect) (x : Register)
      (moves : d .load = true) (stores : (store x).execute d m = .ok () m₁)
      (memory_eq : m₂.memory = m₁.memory) (i_eq : m₂.registers.i = m₁.registers.i)
      (rest : StoredInTurn m₂ turns m') : StoredInTurn m ((x, m.registers) :: turns) m'

/-- The bytes that stores in turn write. -/
def regionOf (turns : List (Register × Registers)) : List UInt8 := turns.flatMap fun t => t.2.upTo t.1

/-- Stores in turn rewrite blocks side by side. -/
theorem StoredInTurn.rewritten {turns : List (Register × Registers)} (h : StoredInTurn m turns m')
    (hi : 0 ≤ m.registers.i) (hm : m.memory.size ≤ 0xFFFF) :
    m.memory.Rewritten m.registers.i (regionOf turns) m'.memory ∧
      m'.registers.i = m.registers.i + (regionOf turns).length ∧
      (turns ≠ [] → m'.registers.i ≤ m.memory.size) := by
  induction h with
  | nil m => exact ⟨.refl _ _, by simp [regionOf], fun h => absurd rfl h⟩
  | @cons m m₁ m₂ m' turns d x moves stores memory_eq i_eq rest ih =>
    obtain ⟨hspan, hrewritten, hm₁⟩ := stored_of_ok hi hm stores
    have hlength : ((m.registers.upTo x).length : Int) = x.val + 1 := by
      rw [Registers.length_upTo]
      rfl
    -- the next store begins where this block ends
    have hindex : m₂.registers.i = m.registers.i + (m.registers.upTo x).length := by
      rw [i_eq, hm₁, hlength, Dialect.stride, if_pos moves]
      rfl
    have hsize : m₂.memory.size = m.memory.size := by rw [memory_eq, hrewritten.size_eq]
    obtain ⟨hrest, hend, hbound⟩ := ih (by omega) (by omega)
    rw [memory_eq, hindex] at hrest
    have hregion : regionOf ((x, m.registers) :: turns) = m.registers.upTo x ++ regionOf turns :=
      List.flatMap_cons
    rw [hregion, List.length_append]
    refine ⟨hrewritten.append hi hrest, by omega, fun _ => ?_⟩
    by_cases hturns : turns = []
    · rw [hend, hindex, hturns]
      simp only [regionOf, List.flatMap_nil, List.length_nil]
      omega
    · have := hbound hturns
      omega

end Instruction

namespace Interpreter

open Instruction

variable {ρ : Type} [NumberSource ρ]

/-- In every reachable state and any dialect, what is stored is loaded again, stores in turn write their
blocks side by side, and the three digits of a number make it up; the index register stays in memory. -/
theorem transfers_round_trip (dialect : Dialect) (tracing : Bool) (numbers : ρ)
    (history : List Operation) (pc : Int) :
    let s := (new dialect tracing numbers).after history
    let m : Machine ρ := { s.machine with registers := { s.machine.registers with pc } }
    let i := m.registers.i
    (∀ (d : Dialect) (x : Register),
      ((∃ m', (store x).execute d m = .ok () m') ↔ i + (x.val + 1) ≤ 4096) ∧
      ∀ m', (store x).execute d m = .ok () m' →
        m.memory.Rewritten i (m.registers.upTo x) m'.memory ∧
        m' = { m with
          memory := m'.memory
          registers := { m.registers with i := i + if d .load then x.val + 1 else 0 } } ∧
        ∀ (d' : Dialect) (m₁ : Machine ρ), m₁.memory = m'.memory → m₁.registers.i = i →
          ∃ v : Vector UInt8 16,
            (load x).execute d' m₁ = .ok () { m₁ with
              registers := { m₁.registers with v, i := i + if d' .load then x.val + 1 else 0 } } ∧
            ∀ k, v.get k = if k ≤ x then m.registers.v.get k else m₁.registers.v.get k) ∧
    (∀ (d : Dialect) (x : Register),
      ((∃ m', (load x).execute d m = .ok () m') ↔ i + (x.val + 1) ≤ 4096) ∧
      ∀ m', (load x).execute d m = .ok () m' →
        ∃ v : Vector UInt8 16,
          m' = { m with
            registers := { m.registers with v, i := i + if d .load then x.val + 1 else 0 } } ∧
          ∀ k, v.get k = if k ≤ x then m.memory.byteAt (i + k.val) else m.registers.v.get k) ∧
    (∀ (turns : List (Register × Registers)) (m' : Machine ρ), StoredInTurn m turns m' →
      (∀ t ∈ turns, (t.2.upTo t.1).length = t.1.val + 1) ∧
      m.memory.Rewritten i (regionOf turns) m'.memory ∧
      m'.registers.i = i + (regionOf turns).length ∧
      (turns ≠ [] → m'.registers.i ≤ 4096)) ∧
    ∀ (d : Dialect) (x : Register),
      ((∃ m', (storeDigits x).execute d m = .ok () m') ↔ i + 3 ≤ 4096) ∧
      ∀ m', (storeDigits x).execute d m = .ok () m' →
        ∃ a b c : UInt8,
          (a.toNat ≤ 9 ∧ b.toNat ≤ 9 ∧ c.toNat ≤ 9) ∧
          100 * a.toNat + 10 * b.toNat + c.toNat = (m.registers.v.get x).toNat ∧
          m.memory.Rewritten i [a, b, c] m'.memory ∧
          m' = { m with memory := m'.memory } := by
  intro s m i
  have hs : s.Reachable := ⟨dialect, tracing, numbers, history, rfl⟩
  have hi : 0 ≤ m.registers.i := hs.wellFormed.registers.i.1
  have hsize : m.memory.size = 4096 := hs.wellFormed.memory_size
  have hm : m.memory.size ≤ 0xFFFF := by omega
  refine ⟨fun d x => ⟨⟨?_, fun h => ⟨_, execute_store hi hm (by omega)⟩⟩, ?_⟩,
    fun d x => ⟨⟨?_, ?_⟩, ?_⟩, ?_,
    fun d x => ⟨⟨?_, fun h => ⟨_, execute_storeDigits hi (by omega)⟩⟩, ?_⟩⟩
  · rintro ⟨m', h⟩
    have := (stored_of_ok hi hm h).1
    omega
  · intro m' h
    obtain ⟨-, hrewritten, hm'⟩ := stored_of_ok hi hm h
    exact ⟨hrewritten, hm', fun d' m₁ hmemory hindex => load_after_store hi hm h hmemory hindex⟩
  · rintro ⟨m', h⟩
    have := (loaded_of_ok hi hm h).1
    omega
  · intro h
    obtain ⟨v, hload, -⟩ := execute_load (d := d) (m := m) (x := x) hi hm (by omega)
    exact ⟨_, hload⟩
  · intro m' h
    exact (loaded_of_ok hi hm h).2
  · intro turns m' h
    obtain ⟨hrewritten, hindex, hbound⟩ := h.rewritten hi hm
    rw [hsize] at hbound
    exact ⟨fun t _ => t.2.length_upTo t.1, hrewritten, hindex, hbound⟩
  · rintro ⟨m', h⟩
    have := (storedDigits_of_ok hi h).1
    omega
  · intro m' h
    obtain ⟨-, hrewritten, hm'⟩ := storedDigits_of_ok hi h
    obtain ⟨a, b, c, hdigits, hle, hsum⟩ := toNat_digits (m.registers.v.get x)
    rw [hdigits] at hrewritten
    exact ⟨a, b, c, hle, hsum, hrewritten, hm'⟩

/-- A new interpreter stores four registers and then two, in a dialect where the index register moves
along: the region of six bytes begins where it pointed first. -/
theorem transfers_round_trip_of_two_stores :
    let m := (new Dialect.cosmac false (⟨[0], 0⟩ : Cycle)).machine
    ∃ (turns : List (Register × Registers)) (m' : Machine Cycle),
      turns.map Prod.fst = [3, 1] ∧ StoredInTurn m turns m' ∧
      m.memory.Rewritten 0 (regionOf turns) m'.memory ∧ m'.registers.i = 6 := by
  intro m
  have hsize : m.memory.size = 4096 := (wellFormed_new Dialect.cosmac false _).memory_size
  have hstart : m.registers.i = 0 := rfl
  obtain ⟨m₁, hfirst, hmoved, hkept⟩ : ∃ m₁, (store 3).execute Dialect.cosmac m = .ok () m₁ ∧
      m₁.registers.i = 4 ∧ m₁.memory.size = 4096 :=
    ⟨_, execute_store (Int.le_refl 0) (by omega) (by rw [hstart, hsize]; decide), rfl,
      (Memory.size_setBlock ..).trans hsize⟩
  have hsecond : (store 1).execute Dialect.cosmac m₁ = .ok () _ :=
    execute_store (by omega) (by omega) (by rw [hmoved, hkept]; decide)
  have hturns := StoredInTurn.cons Dialect.cosmac 3 rfl hfirst rfl rfl
    (.cons Dialect.cosmac 1 rfl hsecond rfl rfl (.nil _))
  obtain ⟨-, -, hchain, -⟩ := transfers_round_trip Dialect.cosmac false (⟨[0], 0⟩ : Cycle) []
    programStart
  obtain ⟨-, hrewritten, hindex, -⟩ := hchain _ _ hturns
  have hlength : (regionOf [(3, m.registers), (1, m₁.registers)]).length = 6 := by
    rw [regionOf, List.flatMap_cons, List.flatMap_cons, List.flatMap_nil, List.length_append,
      List.length_append, Registers.length_upTo, Registers.length_upTo]
    rfl
  refine ⟨_, _, rfl, hturns, hrewritten, ?_⟩
  rw [hindex, hlength]
  rfl

end Interpreter

end Chip8
