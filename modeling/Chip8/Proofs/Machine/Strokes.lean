import Mathlib.Data.List.Basic
import Chip8.Proofs.Machine.Pictures

/-!
# A frame through strokes in turn

Cells are set, read, toggled and cleared one `Stroke` after the other.  A frame of any size, however its
cells are laid out in the plane, is then a grid of two coordinates (`Frame.Depicts`): a stroke at a
position that it may have never fails, does to the frame what it does to the grid, and answers alike
(`Frame.depicts_stroke`).  The bytes of the frame are the rows of the grid, one after the other
(`Frame.Depicts.snapshot_eq`), whatever was done before (`Frame.strokes_on_grid`).
-/

namespace Chip8

namespace Frame

/-- Something done to a frame. -/
inductive Stroke
  | setLit (x y : Int) (lit : Bool)
  | isLit (x y : Int)
  | toggle (x y : Int) (wrap : Bool)
  | clear
deriving DecidableEq

/-- The frame after a stroke and what the stroke answers, or why it is refused. -/
def stroke (f : Frame) : Stroke → Except Fault (Frame × Option Bool)
  | .setLit x y lit => (f.setLit x y lit).map (·, none)
  | .isLit x y => (f.isLit x y).map fun lit => (f, some lit)
  | .toggle x y wrap => (f.toggle x y wrap).map fun (lit, after) => (after, lit)
  | .clear => .ok (f.clear, none)

/-- The frame after strokes in turn and what they answer, up to the first that is refused. -/
def strokeAll (f : Frame) : List Stroke → Except Fault (Frame × List (Option Bool))
  | [] => .ok (f, [])
  | a :: history => do
    let (next, answer) ← f.stroke a
    let (after, answers) ← next.strokeAll history
    return (after, answer :: answers)

/-- The frame of a size with no cell lit. -/
def unlit (w h : Nat) : Frame := ⟨w, h, Memory.zeros (w * h)⟩

/-- A grid by its cells. -/
abbrev Cells := Int → Int → Bool

/-- The grid with one cell replaced. -/
def Cells.set (g : Cells) (x y : Int) (lit : Bool) : Cells :=
  fun u v => if u = x ∧ v = y then lit else g u v

namespace Stroke

/-- Whether a stroke is at a position that it may have on a grid of a size: cells are set and read where
there are any, and toggled at zero or above, or anywhere with wrapping. -/
def Fits (w h : Int) : Stroke → Prop
  | .setLit x y _ | .isLit x y => (0 ≤ x ∧ x < w) ∧ 0 ≤ y ∧ y < h
  | .toggle x y wrap => wrap = true ∨ (0 ≤ x ∧ 0 ≤ y)
  | .clear => True

/-- The grid after a stroke, and what the stroke answers. -/
def onCells (w h : Int) (g : Cells) : Stroke → Cells × Option Bool
  | .setLit x y lit => (g.set x y lit, none)
  | .isLit x y => (g, some (g x y))
  | .toggle x y true => (g.set (x % w) (y % h) !g (x % w) (y % h), some (g (x % w) (y % h)))
  | .toggle x y false => if x < w ∧ y < h then (g.set x y !g x y, some (g x y)) else (g, none)
  | .clear => (fun _ _ => false, none)

/-- The grid after strokes in turn, and what they answer. -/
def allOnCells (w h : Int) (g : Cells) : List Stroke → Cells × List (Option Bool)
  | [] => (g, [])
  | a :: history =>
    let (after, answers) := allOnCells w h (a.onCells w h g).1 history
    (after, (a.onCells w h g).2 :: answers)

end Stroke

/-- The frame has the size and the lit cells of a grid. -/
structure Depicts (w h : Nat) (f : Frame) (g : Cells) : Prop where
  width_eq : f.width = w
  height_eq : f.height = h
  grid : f.IsGrid
  lit_eq : ∀ x y, f.Holds x y → f.lit x y = g x y

variable {w h : Nat} {f : Frame} {g : Cells} {x y : Int}

/-! ### One stroke -/

theorem ofSize_eq_ite (w h : Nat) :
    ofSize w h =
      if w * h < 9223372036854775808 then .ok (unlit w h) else .error .sizeTooWide := by
  have hcast : (w : Int) * h = (w * h : Nat) := (Int.natCast_mul w h).symm
  rw [ofSize, hcast, Memory.ofSize, wordSize?_natCast]
  split <;> rfl

theorem depicts_zeros (hw : f.width = w) (hh : f.height = h) (hw₀ : 0 < f.width) (hh₀ : 0 < f.height)
    (hplane : f.plane = Memory.zeros (w * h)) : f.Depicts w h (fun _ _ => false) where
  width_eq := hw
  height_eq := hh
  grid := {
    width_pos := hw₀
    height_pos := hh₀
    size_eq := by rw [hplane, Memory.size_zeros, hw, hh, Int.natCast_mul]
    bit := fun loc => Or.inl (by rw [hplane, Memory.byteAt_zeros]) }
  lit_eq x y _ := by
    rw [lit, hplane, Memory.byteAt_zeros]
    rfl

namespace Depicts

theorem holds_iff (hd : f.Depicts w h g) : f.Holds x y ↔ (0 ≤ x ∧ x < w) ∧ 0 ≤ y ∧ y < h := by
  rw [Holds, hd.width_eq, hd.height_eq]

theorem size_eq (hd : f.Depicts w h g) : f.plane.size = w * h := by
  have hs := hd.grid.size_eq
  rw [hd.width_eq, hd.height_eq, ← Int.natCast_mul] at hs
  exact Int.ofNat.inj hs

theorem withByte (hd : f.Depicts w h g) (hc : f.Holds x y) (lit : Bool) :
    (f.withByte x y (if lit then 1 else 0)).Depicts w h (g.set x y lit) where
  width_eq := hd.width_eq
  height_eq := hd.height_eq
  grid := isGrid_withByte hd.grid x y (by cases lit <;> simp)
  lit_eq u v huv := by
    have hlit : ((if lit then 1 else 0 : UInt8) != 0) = lit := by cases lit <;> rfl
    rw [lit_withByte hd.grid hc huv, hlit, Cells.set, hd.lit_eq u v huv]

theorem flip (hd : f.Depicts w h g) (hc : f.Holds x y) : (f.flip x y).Depicts w h (g.set x y !g x y) := by
  have hbyte : f.plane.byteAt (f.location x y) ^^^ 1 = if !g x y then 1 else 0 := by
    rw [← hd.lit_eq x y hc, lit]
    rcases hd.grid.bit (f.location x y) with hbit | hbit <;> rw [hbit] <;> rfl
  show (f.withByte x y (f.plane.byteAt (f.location x y) ^^^ 1)).Depicts w h (g.set x y !g x y)
  rw [hbyte]
  exact hd.withByte hc _

theorem isLit (hd : f.Depicts w h g) (hc : f.Holds x y) : f.isLit x y = .ok (g x y) := by
  obtain ⟨h₀, h₁⟩ := location_bounds hd.grid.size_eq hc
  rw [Frame.isLit, Memory.read_of_lt _ h₀ h₁, ← hd.lit_eq x y hc]
  rfl

/-- Toggling concerns the cell that the position falls on, if it is not clipped. -/
theorem onCells_toggle (hd : f.Depicts w h g) (x y : Int) (wrap : Bool) :
    (Stroke.toggle x y wrap).onCells w h g =
      (f.landing wrap (x, y)).elim (g, none) fun c => (g.set c.1 c.2 !g c.1 c.2, some (g c.1 c.2)) := by
  rw [landing, hd.width_eq, hd.height_eq]
  cases wrap with
  | true => rfl
  | false =>
    rw [Stroke.onCells, if_neg Bool.false_ne_true]
    by_cases hin : x < w ∧ y < h
    · rw [if_pos hin, if_neg (by omega)]
      rfl
    · rw [if_neg hin, if_pos (by omega)]
      rfl

end Depicts

/-- A stroke does to a frame what it does to the grid that the frame depicts. -/
theorem depicts_stroke (hd : f.Depicts w h g) {a : Stroke} (ha : a.Fits w h) :
    ∃ after, f.stroke a = .ok (after, (a.onCells w h g).2) ∧
      after.Depicts w h (a.onCells w h g).1 := by
  cases a with
  | setLit x y lit =>
    have hc : f.Holds x y := hd.holds_iff.2 ha
    obtain ⟨h₀, h₁⟩ := location_bounds hd.grid.size_eq hc
    refine ⟨_, ?_, hd.withByte hc lit⟩
    rw [stroke, setLit_eq_map, Memory.check_of_le _ h₀ (by omega)]
    rfl
  | isLit x y =>
    refine ⟨f, ?_, hd⟩
    rw [stroke, hd.isLit (hd.holds_iff.2 ha)]
    rfl
  | toggle x y wrap =>
    have htoggle : f.toggle x y wrap = _ := toggle_eq (p := (x, y)) hd.grid ha
    rw [stroke, htoggle, hd.onCells_toggle]
    cases hland : f.landing wrap (x, y) with
    | none => exact ⟨f, rfl, hd⟩
    | some c =>
      have hc : f.Holds c.1 c.2 := holds_of_landing (p := (x, y)) hd.grid ha hland
      refine ⟨_, ?_, hd.flip hc⟩
      rw [Option.map_some, hd.lit_eq _ _ hc]
      rfl
  | clear =>
    refine ⟨_, rfl, depicts_zeros hd.width_eq hd.height_eq hd.grid.width_pos hd.grid.height_pos ?_⟩
    show f.plane.clear = _
    rw [Memory.clear, hd.size_eq]

/-! ### Strokes in turn -/

theorem depicts_strokeAll (hd : f.Depicts w h g) {history : List Stroke}
    (hfits : ∀ a ∈ history, a.Fits w h) :
    ∃ after, f.strokeAll history = .ok (after, (Stroke.allOnCells w h g history).2) ∧
      after.Depicts w h (Stroke.allOnCells w h g history).1 := by
  induction history generalizing f g with
  | nil => exact ⟨f, rfl, hd⟩
  | cons a history ih =>
    obtain ⟨ha, hrest⟩ := List.forall_mem_cons.1 hfits
    obtain ⟨next, hstroke, hnext⟩ := depicts_stroke hd ha
    obtain ⟨after, hafter, hd'⟩ := ih hnext hrest
    refine ⟨after, ?_, hd'⟩
    rw [strokeAll, hstroke]
    show (next.strokeAll history >>= _) = _
    rw [hafter]
    rfl

/-! ### Rows -/

/-- Numbers below a product, row after row. -/
theorem range_mul_eq_flatMap (w h : Nat) :
    List.range (h * w) = (List.range h).flatMap fun y => (List.range w).map fun x => y * w + x := by
  induction h with
  | zero => simp
  | succ h ih =>
    rw [Nat.succ_mul, List.range_add, ih, List.range_succ, List.flatMap_append, List.flatMap_singleton]

/-- The bytes of a frame are those of its rows, one after the other. -/
theorem Depicts.snapshot_eq (hd : f.Depicts w h g) :
    f.snapshot.toList =
      (List.range h).flatMap fun (y : Nat) => (List.range w).map fun (x : Nat) => if g x y then 1 else 0 := by
  rw [snapshot, Memory.toList_bytes, hd.size_eq, Nat.mul_comm, range_mul_eq_flatMap, List.map_flatMap]
  apply List.flatMap_congr
  intro y hy
  rw [List.map_map]
  apply List.map_congr_left
  intro x hx
  have hc : f.Holds x y := hd.holds_iff.2 (by
    have := List.mem_range.1 hx
    have := List.mem_range.1 hy
    omega)
  have hlocation : f.location x y = (y * w + x : Nat) := by
    rw [location, hd.width_eq]
    push_cast
    rfl
  rw [Function.comp_apply, ← hlocation, ← hd.lit_eq x y hc]
  exact hd.grid.cell_eq x y

/-- Strokes on a frame of any size do to it, and answer, what they do to a grid of two coordinates, and
the bytes of the frame are the rows of that grid, one after the other. -/
theorem strokes_on_grid (w h : Nat) (hw : 1 ≤ w) (hh : 1 ≤ h) (history : List Stroke)
    (hfits : ∀ a ∈ history, a.Fits w h) :
    let drawn := Stroke.allOnCells w h (fun _ _ => false) history
    ofSize w h = (if w * h < 9223372036854775808 then .ok (unlit w h) else .error .sizeTooWide) ∧
    ∃ f, (unlit w h).strokeAll history = .ok (f, drawn.2) ∧
      (f.width = w ∧ f.height = h) ∧
      (∀ x y : Int, (0 ≤ x ∧ x < w) ∧ 0 ≤ y ∧ y < h → f.isLit x y = .ok (drawn.1 x y)) ∧
      (∀ b ∈ f.snapshot, b = 0 ∨ b = 1) ∧
      f.snapshot.size = w * h ∧
      f.snapshot.toList =
        ((List.range h).flatMap fun (y : Nat) =>
          (List.range w).map fun (x : Nat) => if drawn.1 x y then 1 else 0) ∧
      f.plane.readBlock 0 (w * h) = .ok f.snapshot.toList := by
  intro drawn
  refine ⟨ofSize_eq_ite w h, ?_⟩
  have hunlit : (unlit w h).Depicts w h (fun _ _ => false) :=
    depicts_zeros rfl rfl (Int.natCast_pos.2 hw) (Int.natCast_pos.2 hh) rfl
  obtain ⟨f, hf, hd⟩ := depicts_strokeAll hunlit hfits
  refine ⟨f, hf, ⟨hd.width_eq, hd.height_eq⟩, fun x y hxy => hd.isLit (hd.holds_iff.2 hxy), ?_,
    hd.size_eq, hd.snapshot_eq, ?_⟩
  · intro b hb
    obtain ⟨loc, rfl⟩ := Memory.exists_byteAt_of_mem hb
    exact hd.grid.bit loc
  · have hread := f.plane.readBlock_all
    rwa [hd.size_eq, Int.natCast_mul] at hread

/-- On a small grid: a cell lit and then toggled around the edges, a position past the edge, and one that
stays. -/
theorem strokes_on_grid_of_three_by_two :
    let history : List Stroke :=
      [.setLit 2 1 true, .toggle (-1) 5 true, .toggle 3 0 false, .toggle 0 0 false, .isLit 2 1]
    (∀ a ∈ history, a.Fits 3 2) ∧
      ∃ f, (unlit 3 2).strokeAll history = .ok (f, [none, some true, none, some false, some false]) ∧
        f.snapshot.toList = [1, 0, 0, 0, 0, 0] := by
  intro history
  have hfits : ∀ a ∈ history, a.Fits 3 2 := by simp [history, Stroke.Fits]
  refine ⟨hfits, ?_⟩
  obtain ⟨-, f, hf, -, -, -, -, hrows, -⟩ :=
    strokes_on_grid 3 2 (by decide) (by decide) history hfits
  exact ⟨f, hf, hrows⟩

end Frame

end Chip8
