import Chip8.Proofs.Instruction.Effect
import Chip8.Proofs.Machine.Toggling

/-!
# Drawing a sprite

On a grid, `draw` toggles the cells under the set bits of its rows (`spriteCells`), row after row, and
fails at the first row that lies past the end of memory (`execute_draw_of_le`, `execute_draw_of_lt`).
Nothing but the frame and the flag register changes, and the flag only if all rows were read.
-/

namespace Chip8

namespace Instruction

variable {ρ : Type}

/-- The positions of the set bits of sprite rows, which are read from the address `i` on, for a sprite
whose origin is `(x, y)`. -/
def spriteCells (m : Memory) (i x y : Int) (rows : List Nat) : List (Int × Int) :=
  rows.flatMap fun (row : Nat) => Frame.rowCells (m.byteAt (i + row)) x (y + row)

theorem spriteCells_append (m : Memory) (i x y : Int) (rows rest : List Nat) :
    spriteCells m i x y (rows ++ rest) = spriteCells m i x y rows ++ spriteCells m i x y rest :=
  List.flatMap_append

/-- The column or row of the frame where a sprite starts. -/
def origin (r : Registers) (x : Register) (side : Int) : Int := (r.v.get x).toNat % side

theorem nonneg_of_mem_rowCells {bits : UInt8} {x y : Int} (hx : 0 ≤ x) (hy : 0 ≤ y)
    {p : Int × Int} (hp : p ∈ Frame.rowCells bits x y) : 0 ≤ p.1 ∧ 0 ≤ p.2 := by
  obtain ⟨k, -, rfl⟩ := List.mem_map.1 hp
  exact ⟨Int.add_nonneg hx (Int.natCast_nonneg k), hy⟩

theorem map_apply {α β : Type} (f : α → β) (act : Action ρ α) (m : Machine ρ) :
    (f <$> act) m =
      match act m with
      | .ok a m => .ok (f a) m
      | .error e m => .error e m := by
  show EStateM.map f act m = _
  rw [EStateM.map]
  cases act m <;> rfl

/-- One row that is read. -/
theorem drawRows_cons {m : Machine ρ} (hf : m.frame.IsGrid) (wrap : Bool) {x y : Int} (hx : 0 ≤ x)
    (hy : 0 ≤ y) {row : Nat}
    (hr : 0 ≤ m.registers.i + (row : Int) ∧ m.registers.i + row < m.memory.size)
    (rows : List Nat) :
    ∃ (erased : Bool) (g : Frame), g.IsGrid ∧
      Frame.Toggled wrap (spriteCells m.memory m.registers.i x y [row]) m.frame g ∧
      (erased = true ↔
        m.frame.Erases wrap (spriteCells m.memory m.registers.i x y [row])) ∧
      drawRows wrap x y (row :: rows) m =
        ((erased || ·) <$> drawRows wrap x y rows) { m with frame := g } := by
  obtain ⟨erased, g, hg, hgrid, ht, he⟩ := Frame.toggleAll_eq wrap hf
    fun p (hp : p ∈ Frame.rowCells (m.memory.byteAt (m.registers.i + row)) x (y + row)) =>
      Or.inr (nonneg_of_mem_rowCells hx (Int.add_nonneg hy (Int.natCast_nonneg row)) hp)
  have hcells : spriteCells m.memory m.registers.i x y [row] =
      Frame.rowCells (m.memory.byteAt (m.registers.i + row)) x (y + row) := by
    simp [spriteCells]
  refine ⟨erased, g, hgrid, hcells ▸ ht, hcells ▸ he, ?_⟩
  have hread := attempt_of_ok (Memory.read_of_lt m.memory hr.1 hr.2) m
  have hframe : Action.onFrame (Frame.toggleAll wrap
      (Frame.rowCells (m.memory.byteAt (m.registers.i + row)) x (y + row))) m =
      .ok erased { m with frame := g } := by
    rw [Action.onFrame, hg]
  exact (bind_of_ok rfl).trans ((bind_of_ok hread).trans (bind_of_ok hframe))

/-- The rows of a sprite that are read toggle their cells before the other rows are looked at. -/
theorem drawRows_append {m : Machine ρ} (hf : m.frame.IsGrid) (wrap : Bool) {x y : Int} (hx : 0 ≤ x)
    (hy : 0 ≤ y) (rows rest : List Nat)
    (hr : ∀ row ∈ rows,
      0 ≤ m.registers.i + (row : Int) ∧ m.registers.i + (row : Int) < m.memory.size) :
    ∃ (erased : Bool) (g : Frame), g.IsGrid ∧
      Frame.Toggled wrap (spriteCells m.memory m.registers.i x y rows) m.frame g ∧
      (erased = true ↔
        m.frame.Erases wrap (spriteCells m.memory m.registers.i x y rows)) ∧
      drawRows wrap x y (rows ++ rest) m =
        ((erased || ·) <$> drawRows wrap x y rest) { m with frame := g } := by
  induction rows generalizing m with
  | nil =>
    refine ⟨false, m.frame, hf, Frame.Toggled.refl wrap m.frame, ?_, ?_⟩
    · simp [spriteCells, Frame.not_erases_nil]
    · simp only [List.nil_append, Bool.false_or]
      exact (congrFun (id_map (drawRows wrap x y rest)) m).symm
  | cons row rows ih =>
    obtain ⟨first, g, hgrid, ht, hfirst, hg⟩ :=
      drawRows_cons hf wrap hx hy (hr row (List.mem_cons_self ..)) (rows ++ rest)
    obtain ⟨erased, k, hkgrid, hk, he, hrest⟩ := ih (m := { m with frame := g }) hgrid
      fun row' h => hr row' (List.mem_cons_of_mem _ h)
    rw [← List.singleton_append, spriteCells_append]
    refine ⟨first || erased, k, hkgrid, ht.trans hk, ?_, ?_⟩
    · rw [Bool.or_eq_true, hfirst, he, ht.erases_append]
    · rw [List.singleton_append, List.cons_append, hg, map_apply, hrest, map_apply, map_apply]
      cases drawRows wrap x y rest { m with frame := k } <;> simp [Bool.or_assoc]

/-! ### The instruction -/

/-- The rows of a sprite that lie in memory. -/
def readableRows (m : Memory) (i : Int) (n : Nat) : List Nat :=
  (List.range n).filter fun row => decide (i + row < m.size)

theorem mem_readableRows {m : Memory} {i : Int} {n row : Nat} :
    row ∈ readableRows m i n ↔ row < n ∧ i + (row : Int) < m.size := by
  simp [readableRows]

/-- The rows that lie in memory come first. -/
theorem range_eq_append {m : Memory} {i : Int} {n k : Nat} (hk : k ≤ n)
    (h : ∀ row < n, i + (row : Int) < m.size ↔ row < k) :
    List.range n = readableRows m i n ++ (List.range (n - k)).map (k + ·) := by
  have hrows : readableRows m i n = List.range k := by
    obtain ⟨j, rfl⟩ := Nat.exists_eq_add_of_le hk
    have hlow : ∀ row ∈ List.range k, decide (i + (row : Int) < m.size) = true := fun row hr => by
      rw [List.mem_range] at hr
      simp [h row (by omega), hr]
    have hhigh : ∀ row ∈ (List.range j).map (k + ·), ¬decide (i + (row : Int) < m.size) = true := by
      intro row hr
      obtain ⟨l, hl, rfl⟩ := List.mem_map.1 hr
      rw [List.mem_range] at hl
      simp only [h (k + l) (by omega), decide_eq_true_eq]
      omega
    rw [readableRows, List.range_add, List.filter_append, List.filter_eq_self.2 hlow,
      List.filter_eq_nil_iff.2 hhigh, List.append_nil]
  rw [hrows, ← List.range_add, Nat.add_sub_cancel' hk]

/-- All rows lie in memory if the last does. -/
theorem readableRows_eq_range {m : Memory} {i : Int} {n : Nat}
    (h : n = 0 ∨ (0 ≤ i ∧ i + n ≤ m.size)) : readableRows m i n = List.range n := by
  refine List.filter_eq_self.2 fun row hr => ?_
  rw [List.mem_range] at hr
  simp only [decide_eq_true_eq]
  omega

variable [NumberSource ρ] (d : Dialect) {m : Machine ρ}

/-- The positions of the rows of a drawn sprite that lie in memory. -/
def drawnCells (m : Machine ρ) (x y : Register) (n : Nat) : List (Int × Int) :=
  spriteCells m.memory m.registers.i (origin m.registers x m.frame.width)
    (origin m.registers y m.frame.height) (readableRows m.memory m.registers.i n)

theorem execute_draw (hf : m.frame.IsGrid) (x y : Register) (n : Fin 16) :
    (draw x y n).execute d m =
      (do
        let erased ← drawRows (d .wrap) (origin m.registers x m.frame.width)
          (origin m.registers y m.frame.height) (List.range n.val)
        Action.setFlag erased : Action ρ Unit) m := by
  have hx := attempt_of_ok (Frame.modulo_of_pos (m.registers.v.get x).toNat hf.width_pos) m
  have hy := attempt_of_ok (Frame.modulo_of_pos (m.registers.v.get y).toNat hf.height_pos) m
  exact (bind_of_ok rfl).trans ((bind_of_ok rfl).trans ((bind_of_ok hx).trans
    ((bind_of_ok rfl).trans (bind_of_ok hy))))

theorem origin_nonneg (r : Registers) (x : Register) {side : Int} (h : 0 < side) :
    0 ≤ origin r x side :=
  Int.emod_nonneg _ (Int.ne_of_gt h)

/-- A sprite whose rows all lie in memory is drawn; one without rows is, wherever it is read from. -/
theorem execute_draw_of_le (hf : m.frame.IsGrid) (x y : Register) {n : Fin 16}
    (h : n.val = 0 ∨ (0 ≤ m.registers.i ∧ m.registers.i + n.val ≤ m.memory.size)) :
    ∃ (erased : Bool) (g : Frame), g.IsGrid ∧
      Frame.Toggled (d .wrap) (drawnCells m x y n.val) m.frame g ∧
      (erased = true ↔ m.frame.Erases (d .wrap) (drawnCells m x y n.val)) ∧
      (draw x y n).execute d m =
        .ok () { m with
          frame := g
          registers := m.registers.setV .flag (if erased then 1 else 0) } := by
  have hrange := readableRows_eq_range h
  obtain ⟨erased, g, hgrid, ht, he, hg⟩ := drawRows_append hf (d .wrap)
    (origin_nonneg m.registers x hf.width_pos) (origin_nonneg m.registers y hf.height_pos)
    (readableRows m.memory m.registers.i n.val) [] fun row hrow => by
      rw [mem_readableRows] at hrow
      omega
  refine ⟨erased, g, hgrid, ht, he, ?_⟩
  rw [List.append_nil, hrange, map_apply, drawRows] at hg
  rw [execute_draw d hf]
  apply (bind_of_ok hg).trans
  rw [Bool.or_false]
  rfl

/-- A sprite with rows that starts below memory is refused. -/
theorem execute_draw_of_neg (hf : m.frame.IsGrid) (hi : m.registers.i < 0) (x y : Register)
    {n : Fin 16} (hn : n.val ≠ 0) :
    ∃ fault, (draw x y n).execute d m = .error fault m := by
  obtain ⟨j, hj⟩ := Nat.exists_eq_add_one_of_ne_zero hn
  have hread : m.memory.read (m.registers.i + (0 : Nat)) =
      .error (.outOfRange (m.registers.i + (0 : Nat)) (m.registers.i + (0 : Nat) + 1 - 1)
        m.memory.top) := by
    rw [Memory.read, Memory.check, if_pos (Or.inl (by omega))]
    rfl
  rw [execute_draw d hf, hj, List.range_succ_eq_map]
  exact ⟨_, bind_of_error ((bind_of_ok rfl).trans (bind_of_error (attempt_of_error hread m)))⟩

/-- A sprite that runs past the end of memory is drawn as far as it lies in memory. -/
theorem execute_draw_of_lt (hf : m.frame.IsGrid) (hi : 0 ≤ m.registers.i) (x y : Register)
    {n : Fin 16} (hn : n.val ≠ 0) (h : m.memory.size < m.registers.i + n.val) :
    ∃ g, g.IsGrid ∧ Frame.Toggled (d .wrap) (drawnCells m x y n.val) m.frame g ∧
      (draw x y n).execute d m =
        .error (.outOfRange (max m.registers.i m.memory.size) (max m.registers.i m.memory.size)
          m.memory.top) { m with frame := g } := by
  -- the first row that does not lie in memory is row `k`
  obtain ⟨k, hk⟩ : ∃ k : Nat, m.registers.i + (k : Int) = max m.registers.i m.memory.size :=
    ⟨(max m.registers.i m.memory.size - m.registers.i).toNat, by omega⟩
  have hrange := range_eq_append (m := m.memory) (i := m.registers.i) (n := n.val) (k := k)
    (by omega) fun row hr => by omega
  obtain ⟨rest, hrest⟩ : ∃ rest, (List.range (n.val - k)).map (k + ·) = k :: rest := by
    obtain ⟨j, hj⟩ := Nat.exists_eq_add_one_of_ne_zero (show n.val - k ≠ 0 by omega)
    rw [hj, List.range_succ_eq_map]
    exact ⟨_, rfl⟩
  obtain ⟨erased, g, hgrid, ht, -, hg⟩ := drawRows_append hf (d .wrap)
    (origin_nonneg m.registers x hf.width_pos) (origin_nonneg m.registers y hf.height_pos)
    (readableRows m.memory m.registers.i n.val) (k :: rest) fun row hrow => by
      rw [mem_readableRows] at hrow
      omega
  refine ⟨g, hgrid, ht, ?_⟩
  have hread : Action.attempt (m.memory.read (m.registers.i + k)) { m with frame := g } =
      .error (.outOfRange (m.registers.i + k) (m.registers.i + k) m.memory.top)
        { m with frame := g } :=
    attempt_of_error (Memory.read_of_le _ (by omega)) _
  have hrow : drawRows (d .wrap) (origin m.registers x m.frame.width)
      (origin m.registers y m.frame.height) (k :: rest) { m with frame := g } = .error _ _ :=
    (bind_of_ok rfl).trans (bind_of_error hread)
  rw [← hrest, ← hrange, map_apply, hrest, hrow] at hg
  rw [execute_draw d hf, ← hk]
  exact bind_of_error hg

end Instruction

end Chip8
