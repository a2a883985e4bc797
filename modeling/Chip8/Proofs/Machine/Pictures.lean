import Chip8.Proofs.Machine.Toggling

/-!
# Cells of a picture

A picture (`Frame.IsPicture`) has one byte for each cell, row after row, so the places of its plane are
its cells (`Frame.position`), and pictures of one size with the same cells have the same bytes.  A grid
is a picture, and it is known by its size and its lit cells (`Frame.IsGrid.ext`).
-/

namespace Chip8

namespace Frame

/-- A frame with one byte for each cell.  A side may be zero, and the frame empty. -/
structure IsPicture (f : Frame) : Prop where
  width_nonneg : 0 ≤ f.width
  height_nonneg : 0 ≤ f.height
  size_eq : (f.plane.size : Int) = f.width * f.height

/-- The byte of a cell. -/
def cell (f : Frame) (x y : Int) : UInt8 := f.plane.byteAt (f.location x y)

/-- Whether two frames have the same size. -/
def SameSize (f g : Frame) : Prop := f.width = g.width ∧ f.height = g.height

instance (f g : Frame) : Decidable (f.SameSize g) :=
  inferInstanceAs (Decidable (f.width = g.width ∧ f.height = g.height))

/-- The cell at a place of the plane. -/
def position (f : Frame) (place : Nat) : Int × Int := (Int.fmod place f.width, Int.fdiv place f.width)

variable {f : Frame}

/-- A picture with a cell has a side that is not zero. -/
theorem IsPicture.width_pos (h : f.IsPicture) {place : Nat} (hp : place < f.plane.size) :
    0 < f.width := by
  have hs := h.size_eq
  have hne : f.width ≠ 0 := by
    intro hw
    rw [hw, Int.zero_mul] at hs
    omega
  have := h.width_nonneg
  omega

theorem IsPicture.position_eq (h : f.IsPicture) (place : Nat) :
    f.position place = (place % f.width, place / f.width) := by
  rw [position, Int.fmod_eq_emod_of_nonneg _ h.width_nonneg,
    Int.fdiv_eq_ediv_of_nonneg _ h.width_nonneg]

theorem IsPicture.location_position (h : f.IsPicture) (place : Nat) :
    f.location (f.position place).1 (f.position place).2 = place := by
  rw [h.position_eq, location, Int.mul_comm, Int.add_comm]
  exact Int.emod_add_mul_ediv _ _

theorem IsPicture.holds_position (h : f.IsPicture) {place : Nat} (hp : place < f.plane.size) :
    f.Holds (f.position place).1 (f.position place).2 := by
  have hw := h.width_pos hp
  have hs := h.size_eq
  rw [h.position_eq]
  refine ⟨⟨Int.emod_nonneg _ (by omega), Int.emod_lt_of_pos _ hw⟩, ?_, ?_⟩
  · exact Int.ediv_nonneg (Int.natCast_nonneg place) (by omega)
  · apply Int.ediv_lt_of_lt_mul hw
    rw [Int.mul_comm]
    omega

theorem IsPicture.cell_position (h : f.IsPicture) (place : Nat) :
    f.cell (f.position place).1 (f.position place).2 = f.plane.byteAt place := by
  rw [cell, h.location_position]

/-- Every cell of a picture is the cell at a place of the plane. -/
theorem IsPicture.exists_place (h : f.IsPicture) {x y : Int} (hc : f.Holds x y) :
    ∃ place : Nat, place < f.plane.size ∧ f.position place = (x, y) := by
  obtain ⟨h₀, h₁⟩ := location_bounds h.size_eq hc
  have hplace : ((f.location x y).toNat : Int) = f.location x y := Int.toNat_of_nonneg h₀
  have hlt : (f.location x y).toNat < f.plane.size := by omega
  refine ⟨_, hlt, ?_⟩
  obtain ⟨hx, hy⟩ := location_inj (h.holds_position hlt) hc
    ((h.location_position _).trans hplace)
  exact Prod.ext hx hy

/-- Pictures of one size with the same cells have the same bytes. -/
theorem IsPicture.snapshot_eq_iff {g : Frame} (hf : f.IsPicture) (hg : g.IsPicture)
    (hs : g.SameSize f) :
    g.snapshot = f.snapshot ↔ ∀ x y, f.Holds x y → f.cell x y = g.cell x y := by
  have hloc (x y : Int) : g.location x y = f.location x y := by rw [location, location, hs.1]
  have hsize : g.plane.size = f.plane.size := by
    have := hf.size_eq
    rw [← hs.1, ← hs.2, ← hg.size_eq] at this
    omega
  constructor
  · intro h x y _
    have hplane : g.plane = f.plane := congrArg Memory.mk h
    rw [cell, cell, hloc, hplane]
  · intro h
    have hplane : g.plane = f.plane := by
      refine Memory.ext_byteAt hsize fun place hp => ?_
      rw [hsize] at hp
      have hcell := h _ _ (hf.holds_position hp)
      rw [hf.cell_position, cell, hloc, hf.location_position] at hcell
      exact hcell.symm
    exact congrArg Memory.bytes hplane

/-! ### Grids -/

theorem IsGrid.isPicture (h : f.IsGrid) : f.IsPicture :=
  ⟨Int.le_of_lt h.width_pos, Int.le_of_lt h.height_pos, h.size_eq⟩

theorem IsGrid.cell_eq (h : f.IsGrid) (x y : Int) : f.cell x y = if f.lit x y then 1 else 0 := by
  rw [cell, lit]
  rcases h.bit (f.location x y) with hbit | hbit <;> rw [hbit] <;> rfl

/-- Grids of one size that are lit at the same cells are the same. -/
theorem IsGrid.ext {g : Frame} (hf : f.IsGrid) (hg : g.IsGrid) (hs : g.SameSize f)
    (h : ∀ x y, f.Holds x y → g.lit x y = f.lit x y) : g = f := by
  have hbytes : g.snapshot = f.snapshot := by
    rw [hf.isPicture.snapshot_eq_iff hg.isPicture hs]
    intro x y hxy
    rw [hf.cell_eq, hg.cell_eq, h x y hxy]
  have hplane : g.plane = f.plane := congrArg Memory.mk hbytes
  cases f
  cases g
  cases hs
  simp_all

end Frame

end Chip8
