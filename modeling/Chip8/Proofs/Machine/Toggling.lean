import Chip8.Machine.Frame
import Chip8.Proofs.Machine.Blocks

/-!
# Toggling cells

A frame is a grid (`Frame.IsGrid`) if its plane has one byte for each cell, 0 or 1.  Toggling a list of
positions on a grid never fails, and a cell ends up as it was, or the other way round if an odd number
of the positions fall on it (`Frame.toggleAll_eq`, `Frame.Toggled`).  A lit cell is erased on the way if
one that was lit is hit, or if any is hit twice (`Frame.Erases`).  A position falls on the cell of its
remainders, or with clipping on the cell of its own name (`Frame.landing`).
-/

namespace Chip8

namespace Frame

/-- A frame with cells, whose plane has one byte for each, 0 or 1. -/
structure IsGrid (f : Frame) : Prop where
  width_pos : 0 < f.width
  height_pos : 0 < f.height
  size_eq : (f.plane.size : Int) = f.width * f.height
  bit : ∀ loc, f.plane.byteAt loc = 0 ∨ f.plane.byteAt loc = 1

/-- Whether there is a cell `(x, y)`. -/
def Holds (f : Frame) (x y : Int) : Prop := (0 ≤ x ∧ x < f.width) ∧ 0 ≤ y ∧ y < f.height

instance (f : Frame) (x y : Int) : Decidable (f.Holds x y) :=
  inferInstanceAs (Decidable ((0 ≤ x ∧ x < f.width) ∧ 0 ≤ y ∧ y < f.height))

/-- Whether the cell `(x, y)` is lit. -/
def lit (f : Frame) (x y : Int) : Bool := f.plane.byteAt (f.location x y) != 0

/-- The cell that a position falls on, if it is not clipped. -/
def landing (f : Frame) (wrap : Bool) (p : Int × Int) : Option (Int × Int) :=
  if wrap then some (p.1 % f.width, p.2 % f.height)
  else if f.width ≤ p.1 ∨ f.height ≤ p.2 then none
  else some p

/-- The number of positions that fall on the cell `(x, y)`. -/
def hits (f : Frame) (wrap : Bool) (ps : List (Int × Int)) (x y : Int) : Nat :=
  ps.countP fun p => f.landing wrap p = some (x, y)

/-- The frame with the byte of a cell replaced. -/
def withByte (f : Frame) (x y : Int) (b : UInt8) : Frame :=
  { f with plane := f.plane.set (f.location x y).toNat b }

/-- The frame with the byte of a cell changed from 0 to 1 or back. -/
def flip (f : Frame) (x y : Int) : Frame :=
  let loc := f.location x y
  { f with plane := f.plane.set loc.toNat (f.plane.byteAt loc ^^^ 1) }

/-- The frame `g` is `f` with a cell toggled for each position that falls on it. -/
structure Toggled (wrap : Bool) (ps : List (Int × Int)) (f g : Frame) : Prop where
  width_eq : g.width = f.width
  height_eq : g.height = f.height
  size_eq : g.plane.size = f.plane.size
  lit_eq : ∀ x y, f.Holds x y → g.lit x y = (f.lit x y ^^ decide (f.hits wrap ps x y % 2 = 1))

/-- Whether toggling positions in turn erases a lit cell: one that was lit and is hit, or one that is
lit by a hit and is hit again. -/
def Erases (f : Frame) (wrap : Bool) (ps : List (Int × Int)) : Prop :=
  ∃ x y, f.Holds x y ∧
    ((f.lit x y = true ∧ 1 ≤ f.hits wrap ps x y) ∨ 2 ≤ f.hits wrap ps x y)

/-! ### Cells of a grid -/

theorem location_bounds {f : Frame} (hs : (f.plane.size : Int) = f.width * f.height) {x y : Int}
    (h : f.Holds x y) : 0 ≤ f.location x y ∧ f.location x y < f.plane.size := by
  obtain ⟨⟨hx, hx'⟩, hy, hy'⟩ := h
  have hw : 0 ≤ f.width := by omega
  have h₀ : 0 ≤ y * f.width := Int.mul_nonneg hy hw
  have h₁ : y * f.width ≤ (f.height - 1) * f.width :=
    Int.mul_le_mul_of_nonneg_right (by omega) hw
  have h₂ : (f.height - 1) * f.width = f.width * f.height - f.width := by
    rw [Int.sub_mul, Int.one_mul, Int.mul_comm]
  rw [location]
  omega

theorem location_emod {f : Frame} {x : Int} (hx : 0 ≤ x ∧ x < f.width) (y : Int) :
    f.location x y % f.width = x := by
  rw [location, Int.add_comm, Int.add_mul_emod_self_right, Int.emod_eq_of_lt hx.1 hx.2]

theorem location_inj {f : Frame} {x y x' y' : Int} (h : f.Holds x y) (h' : f.Holds x' y')
    (e : f.location x y = f.location x' y') : x = x' ∧ y = y' := by
  have hw : f.width ≠ 0 := by have := h.1; omega
  have hx : x = x' := by rw [← location_emod h.1 y, e, location_emod h'.1]
  refine ⟨hx, ?_⟩
  have hm : y * f.width = y' * f.width := by
    rw [location, location, hx] at e
    omega
  exact Int.eq_of_mul_eq_mul_right hw hm

/-- Positions at zero or above, and all positions with wrapping, fall on cells of the grid. -/
theorem holds_of_landing {f : Frame} (hf : f.IsGrid) {wrap : Bool} {p c : Int × Int}
    (hp : wrap = true ∨ (0 ≤ p.1 ∧ 0 ≤ p.2)) (h : f.landing wrap p = some c) : f.Holds c.1 c.2 := by
  unfold landing at h
  split at h
  · cases h
    have hw := hf.width_pos
    have hh := hf.height_pos
    exact ⟨⟨Int.emod_nonneg _ (by omega), Int.emod_lt_of_pos _ hw⟩,
      Int.emod_nonneg _ (by omega), Int.emod_lt_of_pos _ hh⟩
  · next hwrap =>
    split at h
    · cases h
    · cases h
      have := hp.resolve_left hwrap
      exact ⟨by omega, by omega⟩

theorem bit_xor_one {b : UInt8} (h : b = 0 ∨ b = 1) : b ^^^ 1 = 0 ∨ b ^^^ 1 = 1 := by
  rcases h with rfl | rfl <;> decide

theorem setLit_eq_map (f : Frame) (x y : Int) (lit : Bool) :
    f.setLit x y lit =
      (f.plane.check (f.location x y) 1).map fun _ => f.withByte x y (if lit then 1 else 0) := by
  have hb : Memory.byte? (if lit then 1 else 0) = .ok (if lit then 1 else 0) := by
    cases lit <;> rfl
  rw [setLit, Memory.write, hb]
  cases f.plane.check (f.location x y) 1 <;> rfl

theorem isGrid_withByte {f : Frame} (hf : f.IsGrid) (x y : Int) {b : UInt8} (hb : b = 0 ∨ b = 1) :
    (f.withByte x y b).IsGrid where
  width_pos := hf.width_pos
  height_pos := hf.height_pos
  size_eq := by
    simp only [withByte, Memory.size_set]
    exact hf.size_eq
  bit loc := by
    simp only [withByte, Memory.byteAt_set]
    split
    · exact hb
    · exact hf.bit loc

theorem lit_withByte {f : Frame} (hf : f.IsGrid) {x y u v : Int} (h : f.Holds x y) (h' : f.Holds u v)
    (b : UInt8) :
    (f.withByte x y b).lit u v = if u = x ∧ v = y then b != 0 else f.lit u v := by
  have hb := location_bounds hf.size_eq h
  have hb' := location_bounds hf.size_eq h'
  show (Memory.byteAt (Memory.set _ _ _) (f.location u v) != 0) = _
  rw [Memory.byteAt_set]
  by_cases e : f.location u v = f.location x y
  · rw [if_pos (by omega), if_pos (location_inj h' h e)]
  · rw [if_neg (by omega), if_neg]
    · rfl
    · rintro ⟨rfl, rfl⟩
      exact e rfl

theorem isGrid_flip {f : Frame} (hf : f.IsGrid) (x y : Int) : (f.flip x y).IsGrid :=
  isGrid_withByte hf x y (bit_xor_one (hf.bit _))

theorem lit_flip {f : Frame} (hf : f.IsGrid) {x y u v : Int} (h : f.Holds x y) (h' : f.Holds u v) :
    (f.flip x y).lit u v = (f.lit u v ^^ decide (x = u ∧ y = v)) := by
  show (f.withByte x y (f.plane.byteAt (f.location x y) ^^^ 1)).lit u v = _
  rw [lit_withByte hf h h']
  split
  · next hcell =>
    obtain ⟨rfl, rfl⟩ := hcell
    unfold lit
    rcases hf.bit (f.location u v) with hbit | hbit <;> rw [hbit] <;> simp
  · next hcell =>
    rw [decide_eq_false fun e => hcell ⟨e.1.symm, e.2.symm⟩, Bool.xor_false]

/-! ### Toggling positions in turn -/

/-- The frame with the cell toggled that a position falls on. -/
def flipAt (f : Frame) : Option (Int × Int) → Frame
  | none => f
  | some c => f.flip c.1 c.2

theorem modulo_of_pos (a : Int) {b : Int} (h : 0 < b) : modulo a b = .ok (a % b) := by
  rw [modulo, if_neg (by omega), Int.fmod_eq_emod_of_nonneg a (Int.le_of_lt h)]

theorem toggleAt_location {f : Frame} (hf : f.IsGrid) {x y : Int} (h : f.Holds x y) :
    f.toggleAt (f.location x y) = .ok (f.lit x y, f.flip x y) := by
  obtain ⟨h₀, h₁⟩ := location_bounds hf.size_eq h
  rw [toggleAt, Memory.read_of_lt _ h₀ h₁]
  rfl

/-- Toggling one position answers whether the cell that it falls on was lit. -/
theorem toggle_eq {f : Frame} (hf : f.IsGrid) {wrap : Bool} {p : Int × Int}
    (hp : wrap = true ∨ (0 ≤ p.1 ∧ 0 ≤ p.2)) :
    f.toggle p.1 p.2 wrap =
      .ok ((f.landing wrap p).map fun c => f.lit c.1 c.2, f.flipAt (f.landing wrap p)) := by
  have holds (c : Int × Int) (hc : f.landing wrap p = some c) := holds_of_landing hf hp hc
  cases wrap with
  | true =>
    have hc := holds _ rfl
    rw [toggle, if_pos rfl, modulo_of_pos _ hf.width_pos, modulo_of_pos _ hf.height_pos]
    show (f.toggleAt (f.location (p.1 % f.width) (p.2 % f.height)) >>= _) = _
    rw [toggleAt_location hf hc]
    rfl
  | false =>
    rw [toggle, if_neg Bool.false_ne_true]
    by_cases hout : f.width ≤ p.1 ∨ f.height ≤ p.2
    · rw [if_pos hout, landing, if_neg Bool.false_ne_true, if_pos hout]
      rfl
    · have hl : f.landing false p = some p := by
        rw [landing, if_neg Bool.false_ne_true, if_neg hout]
      rw [if_neg hout, hl, toggleAt_location hf (holds p hl)]
      rfl

theorem isGrid_flipAt {f : Frame} (hf : f.IsGrid) (c : Option (Int × Int)) :
    (f.flipAt c).IsGrid := by
  cases c with
  | none => exact hf
  | some c => exact isGrid_flip hf c.1 c.2

theorem flipAt_size (f : Frame) (c : Option (Int × Int)) :
    (f.flipAt c).width = f.width ∧ (f.flipAt c).height = f.height ∧
      (f.flipAt c).plane.size = f.plane.size := by
  cases c with
  | none => exact ⟨rfl, rfl, rfl⟩
  | some c => exact ⟨rfl, rfl, Memory.size_set _ _ _⟩

theorem lit_flipAt {f : Frame} (hf : f.IsGrid) {wrap : Bool} {p : Int × Int}
    (hp : wrap = true ∨ (0 ≤ p.1 ∧ 0 ≤ p.2)) {x y : Int} (h : f.Holds x y) :
    (f.flipAt (f.landing wrap p)).lit x y =
      (f.lit x y ^^ decide (f.landing wrap p = some (x, y))) := by
  cases hc : f.landing wrap p with
  | none => simp [flipAt]
  | some c =>
    rw [flipAt, lit_flip hf (holds_of_landing hf hp hc) h]
    simp [Prod.ext_iff]

theorem landing_congr {f g : Frame} (hw : g.width = f.width) (hh : g.height = f.height)
    (wrap : Bool) (p : Int × Int) : g.landing wrap p = f.landing wrap p := by
  rw [landing, landing, hw, hh]

theorem hits_congr {f g : Frame} (hw : g.width = f.width) (hh : g.height = f.height) (wrap : Bool)
    (ps : List (Int × Int)) (x y : Int) : g.hits wrap ps x y = f.hits wrap ps x y := by
  simp only [hits, landing_congr hw hh]

theorem holds_congr {f g : Frame} (hw : g.width = f.width) (hh : g.height = f.height) (x y : Int) :
    g.Holds x y ↔ f.Holds x y := by
  rw [Holds, Holds, hw, hh]

theorem hits_append (f : Frame) (wrap : Bool) (ps qs : List (Int × Int)) (x y : Int) :
    f.hits wrap (ps ++ qs) x y = f.hits wrap ps x y + f.hits wrap qs x y :=
  List.countP_append

theorem Toggled.refl (wrap : Bool) (f : Frame) : Toggled wrap [] f f :=
  ⟨rfl, rfl, rfl, fun x y _ => by simp [hits]⟩

theorem odd_add (a b : Nat) :
    decide ((a + b) % 2 = 1) = (decide (a % 2 = 1) ^^ decide (b % 2 = 1)) := by
  rcases Nat.mod_two_eq_zero_or_one a with ha | ha <;>
    rcases Nat.mod_two_eq_zero_or_one b with hb | hb <;> simp [Nat.add_mod, ha, hb]

theorem Toggled.trans {wrap : Bool} {ps qs : List (Int × Int)} {f g k : Frame}
    (h : Toggled wrap ps f g) (h' : Toggled wrap qs g k) : Toggled wrap (ps ++ qs) f k where
  width_eq := h'.width_eq.trans h.width_eq
  height_eq := h'.height_eq.trans h.height_eq
  size_eq := h'.size_eq.trans h.size_eq
  lit_eq x y hxy := by
    rw [h'.lit_eq x y ((holds_congr h.width_eq h.height_eq x y).2 hxy), h.lit_eq x y hxy,
      hits_congr h.width_eq h.height_eq, hits_append, odd_add, Bool.xor_assoc]

theorem toggled_flipAt {f : Frame} (hf : f.IsGrid) {wrap : Bool} {p : Int × Int}
    (hp : wrap = true ∨ (0 ≤ p.1 ∧ 0 ≤ p.2)) :
    Toggled wrap [p] f (f.flipAt (f.landing wrap p)) where
  width_eq := (flipAt_size f _).1
  height_eq := (flipAt_size f _).2.1
  size_eq := (flipAt_size f _).2.2
  lit_eq x y hxy := by
    rw [lit_flipAt hf hp hxy, hits, List.countP_singleton]
    by_cases hc : f.landing wrap p = some (x, y) <;> simp [hc]

/-! ### Erasing -/

theorem not_erases_nil (f : Frame) (wrap : Bool) : ¬f.Erases wrap [] := by
  rintro ⟨x, y, -, h⟩
  simp [hits] at h

/-- One position erases a lit cell iff the cell that it falls on is lit. -/
theorem erases_singleton {f : Frame} (hf : f.IsGrid) {wrap : Bool} {p : Int × Int}
    (hp : wrap = true ∨ (0 ≤ p.1 ∧ 0 ≤ p.2)) :
    f.Erases wrap [p] ↔ (f.landing wrap p).map (fun c => f.lit c.1 c.2) = some true := by
  have hhits (x y : Int) :
      f.hits wrap [p] x y = if f.landing wrap p = some (x, y) then 1 else 0 := by
    simp [hits, List.countP_singleton]
  rw [Option.map_eq_some_iff]
  constructor
  · rintro ⟨x, y, -, h⟩
    rw [hhits] at h
    split at h
    · next hc => exact ⟨(x, y), hc, (h.resolve_right (by omega)).1⟩
    · omega
  · rintro ⟨c, hc, hlit⟩
    refine ⟨c.1, c.2, holds_of_landing hf hp hc, Or.inl ⟨hlit, ?_⟩⟩
    simp [hhits, hc]

/-- Positions after others erase what those left lit. -/
theorem Toggled.erases_append {wrap : Bool} {ps : List (Int × Int)} {f g : Frame}
    (h : Toggled wrap ps f g) (qs : List (Int × Int)) :
    f.Erases wrap (ps ++ qs) ↔ f.Erases wrap ps ∨ g.Erases wrap qs := by
  simp only [Erases, ← exists_or, hits_congr h.width_eq h.height_eq,
    holds_congr h.width_eq h.height_eq, ← and_or_left, hits_append]
  refine exists_congr fun x => exists_congr fun y => and_congr_right fun hxy => ?_
  rw [h.lit_eq x y hxy]
  -- a cell hit once among `ps` has changed, and one hit more often was erased already
  cases f.lit x y <;> simp <;> omega

/-- Toggling positions on a grid never fails. -/
theorem toggleAll_eq (wrap : Bool) {ps : List (Int × Int)} {f : Frame} (hf : f.IsGrid)
    (hp : ∀ p ∈ ps, wrap = true ∨ (0 ≤ p.1 ∧ 0 ≤ p.2)) :
    ∃ (erased : Bool) (g : Frame), toggleAll wrap ps f = .ok erased g ∧ g.IsGrid ∧
      Toggled wrap ps f g ∧ (erased = true ↔ f.Erases wrap ps) := by
  induction ps generalizing f with
  | nil => exact ⟨false, f, rfl, hf, .refl wrap f, by simp [not_erases_nil]⟩
  | cons p ps ih =>
    have hp' := hp p (List.mem_cons_self ..)
    have hfirst := toggled_flipAt hf hp'
    obtain ⟨erased, g, hg, hgrid, ht, he⟩ := ih (isGrid_flipAt hf (f.landing wrap p))
      fun q hq => hp q (List.mem_cons_of_mem _ hq)
    refine ⟨((f.landing wrap p).map fun c => f.lit c.1 c.2) == some true || erased, g, ?_, hgrid,
      hfirst.trans ht, ?_⟩
    · simp only [toggleAll, toggle_eq hf hp']
      show EStateM.map _ (toggleAll wrap ps) _ = _
      rw [EStateM.map, hg]
    · rw [← List.singleton_append, hfirst.erases_append, erases_singleton hf hp', ← he,
        Bool.or_eq_true, beq_iff_eq]

end Frame

end Chip8
