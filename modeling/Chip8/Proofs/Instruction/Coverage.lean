import Chip8.Proofs.Instruction.Drawing
import Mathlib.Data.Finset.Card
import Mathlib.Data.List.ProdSigma

/-!
# How often a sprite covers a cell

A sprite is looked at bit by bit: the bit in a row and a column lands on one cell of the frame, or on
none if it is clipped (`Instruction.LandsOn`), and `Instruction.coverage` counts the set bits that land
on a cell.  On a frame smaller than the sprite one cell can be covered several times.  The main statement
is `Instruction.draw_covers`: drawing changes a cell iff its coverage is odd, and sets the flag iff a lit
cell is covered, or any cell is covered twice.
-/

namespace Chip8

namespace Instruction

variable {ρ : Type}

/-- Whether the bit of a sprite in a row and a column is set.  Column 0 has the top bit. -/
def spriteBit (m : Machine ρ) (row column : Nat) : Bool :=
  (m.memory.byteAt (m.registers.i + row)).toNat.testBit (7 - column)

/-- Whether the bit of a sprite in a row and a column lands on the cell `(u, v)`.  The origin of the
sprite always wraps; a bit past the right or the bottom edge wraps as well or lands nowhere. -/
def LandsOn (m : Machine ρ) (wrap : Bool) (x y : Register) (row column : Nat) (u v : Int) : Prop :=
  let w := m.frame.width
  let h := m.frame.height
  let across := (m.registers.v.get x).toNat % w + column
  let down := (m.registers.v.get y).toNat % h + row
  if wrap then across % w = u ∧ down % h = v
  else (across < w ∧ down < h) ∧ across = u ∧ down = v

instance (m : Machine ρ) (wrap : Bool) (x y : Register) (row column : Nat) (u v : Int) :
    Decidable (LandsOn m wrap x y row column u v) := by
  unfold LandsOn
  infer_instance

/-- The number of set bits of a sprite that land on the cell `(u, v)`. -/
def coverage (m : Machine ρ) (wrap : Bool) (x y : Register) (rows : Nat) (u v : Int) : Nat :=
  (List.range rows ×ˢ List.range 8).countP fun p =>
    spriteBit m p.1 p.2 && decide (LandsOn m wrap x y p.1 p.2 u v)

theorem landsOn_iff (m : Machine ρ) (wrap : Bool) (x y : Register) (row column : Nat) (u v : Int) :
    LandsOn m wrap x y row column u v ↔
      m.frame.landing wrap (origin m.registers x m.frame.width + column,
        origin m.registers y m.frame.height + row) = some (u, v) := by
  unfold LandsOn Frame.landing origin
  cases wrap with
  | true => simp
  | false =>
    simp only [Bool.false_eq_true, if_false]
    split
    · next hout => simp only [reduceCtorEq, iff_false]; omega
    · next hin => simp only [Option.some.injEq, Prod.mk.injEq]; omega

theorem holds_of_landsOn {m : Machine ρ} (hf : m.frame.IsGrid) {wrap : Bool} {x y : Register}
    {row column : Nat} {u v : Int} (h : LandsOn m wrap x y row column u v) : m.frame.Holds u v := by
  have hx := origin_nonneg m.registers x hf.width_pos
  have hy := origin_nonneg m.registers y hf.height_pos
  exact Frame.holds_of_landing hf
    (Or.inr ⟨Int.add_nonneg hx (Int.natCast_nonneg column), Int.add_nonneg hy (Int.natCast_nonneg row)⟩)
    ((landsOn_iff m wrap x y row column u v).1 h)

/-- The coverage of a cell is the number of times that the positions of the sprite hit it. -/
theorem coverage_eq_hits (m : Machine ρ) (wrap : Bool) (x y : Register) (rows : Nat) (u v : Int) :
    coverage m wrap x y rows u v =
      m.frame.hits wrap (spriteCells m.memory m.registers.i (origin m.registers x m.frame.width)
        (origin m.registers y m.frame.height) (List.range rows)) u v := by
  show (List.product _ _).countP _ = (List.flatMap _ _).countP _
  rw [List.product, List.countP_flatMap, List.countP_flatMap]
  congr 1
  refine List.map_congr_left fun row _ => ?_
  simp only [Function.comp_apply, Frame.rowCells, List.countP_map, List.countP_filter]
  refine List.countP_congr fun column _ => ?_
  simp [spriteBit, landsOn_iff, and_comm]

theorem one_le_coverage_iff (m : Machine ρ) (wrap : Bool) (x y : Register) (rows : Nat) (u v : Int) :
    1 ≤ coverage m wrap x y rows u v ↔
      ∃ row < rows, ∃ column < 8, spriteBit m row column = true ∧
        LandsOn m wrap x y row column u v := by
  rw [coverage, Nat.one_le_iff_ne_zero, ← Nat.pos_iff_ne_zero, List.countP_pos_iff]
  simp [List.mem_product, and_assoc]

theorem eq_of_add_emod {a w : Int} {j k : Nat} (hj : (j : Int) < w) (hk : (k : Int) < w)
    (h : (a + j) % w = (a + k) % w) : j = k := by
  have hjk : (j : Int) % w = k % w := Int.emod_add_cancel_left.1 h
  rw [Int.emod_eq_of_lt (Int.natCast_nonneg j) hj, Int.emod_eq_of_lt (Int.natCast_nonneg k) hk] at hjk
  exact Int.ofNat_inj.1 hjk

/-- On a frame that is not smaller than the sprite, two bits never land on one cell. -/
theorem coverage_le_one {m : Machine ρ} {rows : Nat} (hw : 8 ≤ m.frame.width)
    (hh : (rows : Int) ≤ m.frame.height) (wrap : Bool) (x y : Register) (u v : Int) :
    coverage m wrap x y rows u v ≤ 1 := by
  have hnodup : (List.range rows ×ˢ List.range 8).Nodup := List.nodup_range.product List.nodup_range
  rw [coverage, List.countP_eq_length_filter, ← List.toFinset_card_of_nodup (hnodup.filter _),
    Finset.card_le_one]
  rintro ⟨row, column⟩ hp ⟨row', column'⟩ hq
  simp only [List.mem_toFinset, List.mem_filter, List.mem_product, List.mem_range, Bool.and_eq_true,
    decide_eq_true_eq, LandsOn] at hp hq
  cases wrap with
  | true =>
    simp only [if_true] at hp hq
    have hcolumn : column = column' :=
      eq_of_add_emod (by omega) (by omega) (hp.2.2.1.trans hq.2.2.1.symm)
    have hrow : row = row' := eq_of_add_emod (by omega) (by omega) (hp.2.2.2.trans hq.2.2.2.symm)
    rw [hcolumn, hrow]
  | false =>
    simp only [Bool.false_eq_true, if_false] at hp hq
    rw [Prod.mk.injEq]
    omega

variable [NumberSource ρ]

/-- A sprite without rows changes nothing but the flag. -/
theorem execute_draw_zero (d : Dialect) {m : Machine ρ} (hf : m.frame.IsGrid) (x y : Register) :
    (draw x y 0).execute d m = .ok () { m with registers := m.registers.setV .flag 0 } :=
  execute_draw d hf x y 0

/-- A drawing whose rows lie in memory toggles each cell iff an odd number of set bits land on it, sets
the flag iff a set bit lands on a lit cell or two on one cell, and changes nothing else. -/
theorem draw_covers (d : Dialect) (m : Machine ρ) (hf : m.frame.IsGrid) (x y : Register) (n : Fin 16)
    (h : n.val = 0 ∨ (0 ≤ m.registers.i ∧ m.registers.i + n.val ≤ m.memory.size)) :
    ∃ (erased : Bool) (g : Frame),
      (draw x y n).execute d m =
        .ok () { m with
          frame := g
          registers := m.registers.setV .flag (if erased then 1 else 0) } ∧
      (g.width = m.frame.width ∧ g.height = m.frame.height ∧ g.IsGrid) ∧
      (∀ u v, m.frame.Holds u v → g.lit u v =
        (m.frame.lit u v ^^ decide (coverage m (d .wrap) x y n.val u v % 2 = 1))) ∧
      (erased = true ↔ ∃ u v, m.frame.Holds u v ∧
        ((m.frame.lit u v = true ∧ 1 ≤ coverage m (d .wrap) x y n.val u v) ∨
          2 ≤ coverage m (d .wrap) x y n.val u v)) ∧
      (n.val = 0 → erased = false ∧ g = m.frame) := by
  obtain ⟨erased, g, hgrid, ht, he, hexec⟩ := execute_draw_of_le d hf x y h
  have hrows := readableRows_eq_range h
  have hcover (u v : Int) : coverage m (d .wrap) x y n.val u v =
      m.frame.hits (d .wrap) (drawnCells m x y n.val) u v := by
    rw [coverage_eq_hits, drawnCells, hrows]
  refine ⟨erased, g, hexec, ⟨ht.width_eq, ht.height_eq, hgrid⟩, ?_, ?_, ?_⟩
  · intro u v huv
    rw [hcover, ht.lit_eq u v huv]
  · simp only [hcover]
    exact he
  · intro hn
    constructor
    · rw [← Bool.not_eq_true, he, drawnCells, hrows, hn]
      exact Frame.not_erases_nil _ _
    · rw [show n = 0 from Fin.ext hn] at hexec
      have hsame := hexec.symm.trans (execute_draw_zero d hf x y)
      rw [EStateM.Result.ok.injEq] at hsame
      exact congrArg Machine.frame hsame.2

/-- The unlit frame of three by two cells. -/
def smallFrame : Frame := ⟨3, 2, .zeros 6⟩

theorem isGrid_smallFrame : smallFrame.IsGrid where
  width_pos := by decide
  height_pos := by decide
  size_eq := by decide
  bit loc := Or.inl (Memory.byteAt_zeros 6 loc)

/-- A machine of three bytes that draws on a small frame, of which the second cell is lit. -/
def smallMachine : Machine Cycle where
  memory := ⟨#[0xFF, 0x81, 0x18]⟩
  registers := { Registers.initial with v := Vector.replicate 16 7 }
  stack := .empty CallStack.standardCapacity
  frame := smallFrame.flip 1 0
  keypad := .allUp
  numbers := ⟨[0], 0⟩

/-- A sprite of three rows that wraps around a frame of three by two cells: the lit cell is covered once
and goes out, and the first cell of the second row is covered twice and stays unlit. -/
theorem draw_covers_of_small :
    smallMachine.frame.IsGrid ∧
      (0 ≤ smallMachine.registers.i ∧ smallMachine.registers.i + 3 ≤ smallMachine.memory.size) ∧
      ∃ g : Frame,
        (draw .flag .flag 3).execute Dialect.xoChip smallMachine =
          .ok () { smallMachine with
            frame := g
            registers := smallMachine.registers.setV .flag 1 } ∧
        g.lit 1 0 = false ∧ g.lit 2 0 = true ∧ g.lit 0 1 = false := by
  have hgrid : smallMachine.frame.IsGrid := Frame.isGrid_flip isGrid_smallFrame 1 0
  have hi : 0 ≤ smallMachine.registers.i ∧
      smallMachine.registers.i + 3 ≤ smallMachine.memory.size := by decide
  obtain ⟨erased, g, hexec, -, hlit, herased, -⟩ :=
    draw_covers Dialect.xoChip smallMachine hgrid .flag .flag 3 (Or.inr hi)
  have hcover : coverage smallMachine true .flag .flag 3 1 0 = 1 ∧
      coverage smallMachine true .flag .flag 3 2 0 = 1 ∧
      coverage smallMachine true .flag .flag 3 0 1 = 2 := by decide +kernel
  have hlast : smallMachine.frame.Holds 0 1 := by decide
  refine ⟨hgrid, hi, g, ?_, ?_, ?_, ?_⟩
  · rw [hexec, herased.2 ⟨0, 1, hlast, Or.inr (Nat.le_of_eq hcover.2.2.symm)⟩]
    rfl
  · rw [hlit 1 0 (by decide)]
    decide +kernel
  · rw [hlit 2 0 (by decide)]
    decide +kernel
  · rw [hlit 0 1 hlast]
    decide +kernel

end Instruction

end Chip8
