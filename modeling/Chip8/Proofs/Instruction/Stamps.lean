import Chip8.Proofs.Instruction.Coverage
import Chip8.Proofs.Instruction.Footprint
import Chip8.Proofs.Interpreter.Bounds
import Chip8.Proofs.Machine.Pictures

/-!
# Sprites over one another

Which cells a sprite toggles depends on the size of the frame, but not on what the frame shows.  So a
frame after any sprites is known from how many of them toggle each cell (`Overlaid`,
`drawAll_eq_ok_iff`): their order does not matter, and two that are alike cancel out
(`Instruction.draws_commute_and_cancel`).
-/

namespace Chip8

/-- A sprite to be drawn: the values of the registers that say where, the bytes of its rows, and whether
bits past the right or the bottom edge wrap around. -/
structure Sprite where
  across : UInt8
  down : UInt8
  rows : List UInt8
  wrap : Bool
deriving DecidableEq

namespace Sprite

/-- The positions of the set bits of a sprite on a frame. -/
def cells (p : Sprite) (f : Frame) : List (Int × Int) :=
  (List.range p.rows.length).flatMap fun row =>
    Frame.rowCells (p.rows.getD row 0) (p.across.toNat % f.width) (p.down.toNat % f.height + row)

/-- The number of set bits of a sprite that land on a cell of a frame. -/
def coverage (p : Sprite) (f : Frame) (u v : Int) : Nat := f.hits p.wrap (p.cells f) u v

/-- Whether a sprite toggles a cell of a frame: an odd number of its set bits land there. -/
def toggles (f : Frame) (u v : Int) (p : Sprite) : Bool := decide (p.coverage f u v % 2 = 1)

variable {f g : Frame}

theorem coverage_congr (hs : g.SameSize f) (p : Sprite) (u v : Int) :
    p.coverage g u v = p.coverage f u v := by
  rw [coverage, coverage, cells, cells, hs.1, hs.2, Frame.hits_congr hs.1 hs.2]

theorem toggles_congr (hs : g.SameSize f) (u v : Int) : toggles g u v = toggles f u v := by
  funext p
  rw [toggles, toggles, coverage_congr hs]

end Sprite

/-- The grid `g` is `f` with sprites drawn on it: a cell has changed if an odd number of them toggle
it. -/
structure Overlaid (ps : List Sprite) (f g : Frame) : Prop where
  grid : g.IsGrid
  size : g.SameSize f
  lit_eq : ∀ u v, f.Holds u v →
    g.lit u v = (f.lit u v ^^ decide (ps.countP (Sprite.toggles f u v) % 2 = 1))

namespace Overlaid

variable {ps qs : List Sprite} {f g k : Frame}

theorem nil_iff (hf : f.IsGrid) : Overlaid [] f g ↔ g = f := by
  constructor
  · intro h
    exact hf.ext h.grid h.size fun u v huv => by simp [h.lit_eq u v huv]
  · rintro rfl
    exact ⟨hf, ⟨rfl, rfl⟩, fun u v _ => by simp⟩

theorem of_toggled {p : Sprite} (hg : g.IsGrid) (h : Frame.Toggled p.wrap (p.cells f) f g) :
    Overlaid [p] f g where
  grid := hg
  size := ⟨h.width_eq, h.height_eq⟩
  lit_eq u v huv := by
    rw [h.lit_eq u v huv, List.countP_singleton, Sprite.toggles, Sprite.coverage]
    congr 1
    split <;> simp_all

/-- Sprites after others, which were drawn on `f` and left `g`. -/
theorem append_iff (h : Overlaid ps f g) : Overlaid (ps ++ qs) f k ↔ Overlaid qs g k := by
  have hsize : k.SameSize f ↔ k.SameSize g := by
    rw [Frame.SameSize, Frame.SameSize, h.size.1, h.size.2]
  have hlit (u v : Int) (huv : f.Holds u v) :
      (f.lit u v ^^ decide ((ps ++ qs).countP (Sprite.toggles f u v) % 2 = 1)) =
        (g.lit u v ^^ decide (qs.countP (Sprite.toggles g u v) % 2 = 1)) := by
    rw [Sprite.toggles_congr h.size, h.lit_eq u v huv, List.countP_append, Frame.odd_add,
      Bool.xor_assoc]
  have hholds (u v : Int) : g.Holds u v ↔ f.Holds u v := Frame.holds_congr h.size.1 h.size.2 u v
  constructor
  · intro hk
    refine ⟨hk.grid, hsize.1 hk.size, fun u v huv => ?_⟩
    rw [hk.lit_eq u v ((hholds u v).1 huv), hlit u v ((hholds u v).1 huv)]
  · intro hk
    refine ⟨hk.grid, hsize.2 hk.size, fun u v huv => ?_⟩
    rw [hk.lit_eq u v ((hholds u v).2 huv), hlit u v huv]

theorem perm (h : Overlaid ps f g) (hp : ps.Perm qs) : Overlaid qs f g where
  grid := h.grid
  size := h.size
  lit_eq u v huv := by rw [h.lit_eq u v huv, hp.countP_eq]

/-- A sprite that is drawn twice might as well not be drawn. -/
theorem cancel {p : Sprite} (h : Overlaid (p :: p :: ps) f g) : Overlaid ps f g where
  grid := h.grid
  size := h.size
  lit_eq u v huv := by
    rw [h.lit_eq u v huv, List.countP_cons, List.countP_cons, Nat.add_assoc, ← Nat.mul_two,
      Nat.add_mul_mod_self_right]

/-- Where no cell is covered twice, a sprite erases a lit cell the second time iff it lit one the first
time. -/
theorem erases_iff {p : Sprite} (h : Overlaid [p] f g) (hp : ∀ u v, p.coverage f u v ≤ 1) :
    g.Erases p.wrap (p.cells g) ↔
      ∃ u v, f.Holds u v ∧ f.lit u v = false ∧ 1 ≤ p.coverage f u v := by
  show (∃ u v, g.Holds u v ∧
    ((g.lit u v = true ∧ 1 ≤ p.coverage g u v) ∨ 2 ≤ p.coverage g u v)) ↔ _
  simp only [Frame.holds_congr h.size.1 h.size.2, Sprite.coverage_congr h.size]
  refine exists_congr fun u => exists_congr fun v => and_congr_right fun huv => ?_
  have hone := hp u v
  rw [h.lit_eq u v huv, List.countP_singleton, Sprite.toggles]
  by_cases hcover : p.coverage f u v = 1
  · simp [hcover]
  · have hzero : p.coverage f u v = 0 := by omega
    simp [hzero]

end Overlaid

/-- A call for a sprite: the instruction that draws it, with the machine and the dialect in which it
runs.  The frame of the machine stays open. -/
structure Stamp (ρ : Type) where
  machine : Machine ρ
  dialect : Dialect
  x : Register
  y : Register
  rows : Fin 16

namespace Stamp

variable {ρ : Type}

/-- The sprite that a call draws. -/
def sprite (s : Stamp ρ) : Sprite where
  across := s.machine.registers.v.get s.x
  down := s.machine.registers.v.get s.y
  rows := (List.range s.rows.val).map fun (row : Nat) =>
    s.machine.memory.byteAt (s.machine.registers.i + row)
  wrap := s.dialect .wrap

/-- Whether the rows of the sprite lie in memory. -/
def Readable (s : Stamp ρ) : Prop :=
  s.rows.val = 0 ∨
    (0 ≤ s.machine.registers.i ∧ s.machine.registers.i + s.rows.val ≤ s.machine.memory.size)

/-- The machine with its frame filled in. -/
def machineOn (s : Stamp ρ) (f : Frame) : Machine ρ := { s.machine with frame := f }

theorem spriteCells_eq (s : Stamp ρ) (f : Frame) :
    Instruction.spriteCells s.machine.memory s.machine.registers.i
      (Instruction.origin s.machine.registers s.x f.width)
      (Instruction.origin s.machine.registers s.y f.height) (List.range s.rows.val) =
        s.sprite.cells f := by
  have hlength : s.sprite.rows.length = s.rows.val := by simp [sprite]
  rw [Sprite.cells, hlength]
  refine List.flatMap_congr fun row h => ?_
  have hrow : s.sprite.rows.getD row 0 = s.machine.memory.byteAt (s.machine.registers.i + row) := by
    simp [sprite, List.mem_range.1 h]
  rw [hrow]
  rfl

theorem coverage_eq (s : Stamp ρ) (f : Frame) (u v : Int) :
    Instruction.coverage (s.machineOn f) (s.dialect .wrap) s.x s.y s.rows.val u v =
      s.sprite.coverage f u v := by
  rw [Instruction.coverage_eq_hits, Sprite.coverage, ← spriteCells_eq]
  rfl

theorem drawnCells_eq {s : Stamp ρ} (h : s.Readable) (f : Frame) :
    Instruction.drawnCells (s.machineOn f) s.x s.y s.rows.val = s.sprite.cells f := by
  rw [← spriteCells_eq, ← Instruction.readableRows_eq_range h]
  rfl

variable [NumberSource ρ]

/-- The frame after the call, which is run on the frame `f`. -/
def onto (s : Stamp ρ) (f : Frame) : Except Fault Frame :=
  match (Instruction.draw s.x s.y s.rows).execute s.dialect (s.machineOn f) with
  | .ok _ m => .ok m.frame
  | .error fault _ => .error fault

/-- The frame after calls in turn, each of which is run on the frame that the one before it left. -/
def drawAll (ss : List (Stamp ρ)) (f : Frame) : Except Fault Frame :=
  ss.foldlM (fun f s => s.onto f) f

variable {f g : Frame}

theorem onto_of_ok {s : Stamp ρ} {m : Machine ρ}
    (h : (Instruction.draw s.x s.y s.rows).execute s.dialect (s.machineOn f) = .ok () m) :
    s.onto f = .ok m.frame := by
  rw [onto, h]

/-- A sprite whose rows lie in memory is drawn on any frame. -/
theorem onto_of_readable {s : Stamp ρ} (hf : f.IsGrid) (hs : s.Readable) :
    ∃ g, s.onto f = .ok g ∧ Overlaid [s.sprite] f g := by
  obtain ⟨_, g, hgrid, htoggled, -, hexec⟩ :=
    Instruction.execute_draw_of_le s.dialect (m := s.machineOn f) hf s.x s.y hs
  rw [drawnCells_eq hs] at htoggled
  exact ⟨g, onto_of_ok hexec, .of_toggled hgrid htoggled⟩

/-- A sprite with a row out of memory is drawn on no frame. -/
theorem readable_of_onto {s : Stamp ρ} (hf : f.IsGrid) (h : s.onto f = .ok g) : s.Readable := by
  by_contra hs
  rw [Readable, not_or] at hs
  obtain ⟨fault, m, he⟩ : ∃ fault m,
      (Instruction.draw s.x s.y s.rows).execute s.dialect (s.machineOn f) = .error fault m := by
    by_cases hi : 0 ≤ s.machine.registers.i
    · obtain ⟨k, -, -, he⟩ := Instruction.execute_draw_of_lt s.dialect (m := s.machineOn f) hf hi
        s.x s.y hs.1 (Int.not_le.1 fun h => hs.2 ⟨hi, h⟩)
      exact ⟨_, _, he⟩
    · obtain ⟨fault, he⟩ := Instruction.execute_draw_of_neg s.dialect (m := s.machineOn f) hf
        (Int.not_le.1 hi) s.x s.y hs.1
      exact ⟨_, _, he⟩
  rw [onto, he] at h
  cases h

theorem overlaid_of_onto {s : Stamp ρ} (hf : f.IsGrid) (h : s.onto f = .ok g) :
    Overlaid [s.sprite] f g := by
  obtain ⟨k, hk, hover⟩ := onto_of_readable hf (readable_of_onto hf h)
  rw [h, Except.ok.injEq] at hk
  rwa [hk]

theorem exists_drawAll {ss : List (Stamp ρ)} (hf : f.IsGrid) (h : ∀ s ∈ ss, s.Readable) :
    ∃ g, drawAll ss f = .ok g := by
  induction ss generalizing f with
  | nil => exact ⟨f, rfl⟩
  | cons s ss ih =>
    rw [List.forall_mem_cons] at h
    obtain ⟨k, hk, hover⟩ := onto_of_readable hf h.1
    obtain ⟨g, hg⟩ := ih hover.grid h.2
    refine ⟨g, ?_⟩
    rw [drawAll, List.foldlM_cons, hk]
    exact hg

/-- Drawing succeeds iff the rows of all sprites lie in memory, and then it overlays them. -/
theorem drawAll_eq_ok_iff {ss : List (Stamp ρ)} (hf : f.IsGrid) :
    drawAll ss f = .ok g ↔ (∀ s ∈ ss, s.Readable) ∧ Overlaid (ss.map sprite) f g := by
  induction ss generalizing f with
  | nil =>
    have hnil : drawAll ([] : List (Stamp ρ)) f = .ok f := rfl
    rw [hnil, List.map_nil, Overlaid.nil_iff hf]
    simp [eq_comm]
  | cons s ss ih =>
    rw [drawAll, List.foldlM_cons, List.forall_mem_cons, List.map_cons, ← List.singleton_append]
    by_cases hs : s.Readable
    · obtain ⟨k, hk, hover⟩ := onto_of_readable hf hs
      rw [hk, hover.append_iff]
      show drawAll ss k = .ok g ↔ _
      rw [ih hover.grid]
      simp only [hs, true_and]
    · simp only [hs, false_and, iff_false]
      intro h
      cases hk : s.onto f with
      | error fault =>
        rw [hk] at h
        cases h
      | ok k => exact hs (readable_of_onto hf hk)

theorem drawAll_perm {ss ts : List (Stamp ρ)} (hf : f.IsGrid) (hp : ss.Perm ts)
    (h : drawAll ss f = .ok g) : drawAll ts f = .ok g := by
  rw [drawAll_eq_ok_iff hf] at h ⊢
  exact ⟨fun s hs => h.1 s (hp.mem_iff.2 hs), h.2.perm (hp.map sprite)⟩

/-- Two calls for one sprite cancel out, wherever in the list they stand. -/
theorem drawAll_cancel {a b c : List (Stamp ρ)} {s t : Stamp ρ} (hf : f.IsGrid)
    (hst : s.sprite = t.sprite) (h : drawAll (a ++ s :: (b ++ t :: c)) f = .ok g) :
    drawAll (a ++ (b ++ c)) f = .ok g := by
  -- the two calls may as well come first
  have hp : (a ++ s :: (b ++ t :: c)).Perm (s :: t :: (a ++ (b ++ c))) := by
    refine List.perm_middle.trans (.cons s ?_)
    rw [← List.append_assoc, ← List.append_assoc]
    exact List.perm_middle
  have hfront := drawAll_perm hf hp h
  rw [drawAll_eq_ok_iff hf, List.map_cons, List.map_cons, hst] at hfront
  rw [drawAll_eq_ok_iff hf]
  exact ⟨fun r hr => hfront.1 r (List.mem_cons_of_mem _ (List.mem_cons_of_mem _ hr)),
    hfront.2.cancel⟩

end Stamp

/-- Two machines that agree on memory, the index register and the byte registers, the flag apart. -/
structure Machine.AgreeButFlag {ρ : Type} (m m' : Machine ρ) : Prop where
  memory_eq : m'.memory = m.memory
  i_eq : m'.registers.i = m.registers.i
  v_eq : ∀ k ≠ Register.flag, m'.registers.v.get k = m.registers.v.get k

namespace Machine.AgreeButFlag

variable {ρ : Type} {m m' m'' : Machine ρ}

theorem trans (h : AgreeButFlag m m') (h' : AgreeButFlag m' m'') : AgreeButFlag m m'' where
  memory_eq := h'.memory_eq.trans h.memory_eq
  i_eq := h'.i_eq.trans h.i_eq
  v_eq k hk := (h'.v_eq k hk).trans (h.v_eq k hk)

variable {d d' : Dialect} {x y : Register} {n : Fin 16}

/-- Machines that agree draw one sprite, unless the flag says where. -/
theorem sprite_eq (h : AgreeButFlag m m') (hwrap : d' .wrap = d .wrap) (hx : x ≠ Register.flag)
    (hy : y ≠ Register.flag) : (Stamp.mk m' d' x y n).sprite = (Stamp.mk m d x y n).sprite := by
  simp only [Stamp.sprite, h.v_eq x hx, h.v_eq y hy, h.memory_eq, h.i_eq, hwrap]

theorem readable_iff (h : AgreeButFlag m m') :
    (Stamp.mk m' d' x y n).Readable ↔ (Stamp.mk m d x y n).Readable := by
  simp only [Stamp.Readable, h.memory_eq, h.i_eq]

end Machine.AgreeButFlag

namespace Instruction

variable {ρ : Type} [NumberSource ρ] {d d' : Dialect} {m m₁ m₂ : Machine ρ} {x y : Register}
  {n : Fin 16}

/-- A sprite that is drawn overlays the frame and leaves the rest as it was, the flag apart. -/
theorem overlaid_of_draw (hf : m.frame.IsGrid) (h : (draw x y n).execute d m = .ok () m₁) :
    (Stamp.mk m d x y n).Readable ∧ Overlaid [(Stamp.mk m d x y n).sprite] m.frame m₁.frame ∧
      m.AgreeButFlag m₁ := by
  have honto : (Stamp.mk m d x y n).onto m.frame = .ok m₁.frame := Stamp.onto_of_ok h
  have hs := Stamp.readable_of_onto hf honto
  refine ⟨hs, Stamp.overlaid_of_onto hf honto, ?_⟩
  obtain ⟨_, _, -, -, -, hexec⟩ := execute_draw_of_le d hf x y hs
  rw [h, EStateM.Result.ok.injEq] at hexec
  obtain ⟨-, rfl⟩ := hexec
  exact ⟨rfl, rfl, fun k hk => by rw [Registers.get_setV, if_neg hk]⟩

/-- The same sprite once more puts the frame back.  On a frame that is not smaller than a sprite, the
flag then says whether a set bit had landed on an unlit cell. -/
theorem draw_again (hf : m.frame.IsGrid) (hx : x ≠ Register.flag) (hy : y ≠ Register.flag)
    (hwrap : d' .wrap = d .wrap) (hfirst : (draw x y n).execute d m = .ok () m₁)
    (hbetween : m₁.AgreeButFlag m₂) (hframe : m₂.frame = m₁.frame) :
    ∃ erased : Bool,
      (draw x y n).execute d' m₂ =
        .ok () { m₂ with
          frame := m.frame
          registers := m₂.registers.setV .flag (if erased then 1 else 0) } ∧
      (8 ≤ m.frame.width → 15 ≤ m.frame.height →
        (erased = true ↔ ∃ row < n.val, ∃ column < 8, spriteBit m row column = true ∧
          ∃ u v, LandsOn m (d .wrap) x y row column u v ∧ m.frame.lit u v = false)) := by
  obtain ⟨hs, hover, hagree⟩ := overlaid_of_draw hf hfirst
  have hagree := hagree.trans hbetween
  have hsprite := hagree.sprite_eq (n := n) hwrap hx hy
  have ht : (Stamp.mk m₂ d' x y n).Readable := hagree.readable_iff.2 hs
  have hgrid : m₂.frame.IsGrid := hframe ▸ hover.grid
  obtain ⟨erased, g, -, -, herased, hexec⟩ := execute_draw_of_le d' hgrid x y ht
  have hagain := (overlaid_of_draw hgrid hexec).2.1
  rw [hsprite, hframe] at hagain
  have hback : g = m.frame :=
    (Overlaid.nil_iff hf).1 (hover.append_iff.2 hagain).cancel
  refine ⟨erased, by rw [hexec, hback], fun hw hh => ?_⟩
  have hcover (u v : Int) := (Stamp.mk m d x y n).coverage_eq m.frame u v
  have hone (u v : Int) : (Stamp.mk m d x y n).sprite.coverage m.frame u v ≤ 1 :=
    hcover u v ▸ coverage_le_one hw (by show (n.val : Int) ≤ m.frame.height; omega) (d .wrap) x y u v
  have hcells : drawnCells m₂ x y n.val = _ := Stamp.drawnCells_eq ht m₂.frame
  rw [hcells, hsprite, hframe, hwrap] at herased
  rw [herased]
  refine (hover.erases_iff hone).trans ?_
  simp only [← hcover, one_le_coverage_iff]
  constructor
  · rintro ⟨u, v, -, hlit, row, hrow, column, hcolumn, hbit, hlands⟩
    exact ⟨row, hrow, column, hcolumn, hbit, u, v, hlands, hlit⟩
  · rintro ⟨row, hrow, column, hcolumn, hbit, u, v, hlands, hlit⟩
    exact ⟨u, v, holds_of_landsOn hf hlands, hlit, row, hrow, column, hcolumn, hbit, hlands⟩

/-- On any grid, sprites whose rows lie in memory leave the same frame in every order, and two draws of
one sprite can be left out: the same instruction once more puts the frame back. -/
theorem draws_commute_and_cancel (f : Frame) (hf : f.IsGrid) :
    (∀ ss : List (Stamp ρ), (∃ g, Stamp.drawAll ss f = .ok g) ↔ ∀ s ∈ ss, s.Readable) ∧
    (∀ (ss ts : List (Stamp ρ)) (g : Frame), ss.Perm ts →
      Stamp.drawAll ss f = .ok g → Stamp.drawAll ts f = .ok g) ∧
    (∀ (a b c : List (Stamp ρ)) (s t : Stamp ρ) (g : Frame), s.sprite = t.sprite →
      Stamp.drawAll (a ++ s :: (b ++ t :: c)) f = .ok g → Stamp.drawAll (a ++ (b ++ c)) f = .ok g) ∧
    ∀ (d d' : Dialect) (m m₁ m₂ : Machine ρ) (x y : Register) (n : Fin 16), m.frame = f →
      x ≠ Register.flag → y ≠ Register.flag → d' .wrap = d .wrap →
      (draw x y n).execute d m = .ok () m₁ → m₁.AgreeButFlag m₂ → m₂.frame = m₁.frame →
      ∃ erased : Bool,
        (draw x y n).execute d' m₂ =
          .ok () { m₂ with
            frame := f
            registers := m₂.registers.setV .flag (if erased then 1 else 0) } ∧
        (8 ≤ f.width → 15 ≤ f.height →
          (erased = true ↔ ∃ row < n.val, ∃ column < 8, spriteBit m row column = true ∧
            ∃ u v, LandsOn m (d .wrap) x y row column u v ∧ f.lit u v = false)) := by
  refine ⟨?_, ?_, ?_, ?_⟩
  · intro ss
    exact ⟨fun ⟨g, h⟩ => ((Stamp.drawAll_eq_ok_iff hf).1 h).1, Stamp.exists_drawAll hf⟩
  · intro ss ts g hp h
    exact Stamp.drawAll_perm hf hp h
  · intro a b c s t g hst h
    exact Stamp.drawAll_cancel hf hst h
  · rintro d d' m m₁ m₂ x y n rfl hx hy hwrap hfirst hbetween hframe
    exact draw_again hf hx hy hwrap hfirst hbetween hframe

/-- A machine with a sprite of two rows, whose position registers point near the last cell of the
standard frame. -/
def cornerMachine : Machine Cycle where
  memory := ⟨#[0xC3, 0xA5]⟩
  registers := { Registers.initial with v := Vector.replicate 16 62, i := 0 }
  stack := .empty CallStack.standardCapacity
  frame := .standard
  keypad := .allUp
  numbers := ⟨[0], 0⟩

/-- In the corner of the standard frame, a sprite that is clipped is drawn before and after one that
wraps, or not at all; and twice in a row, with another flag in between. -/
theorem draws_commute_and_cancel_in_corner :
    Frame.standard.IsGrid ∧
      (let clipped := Stamp.mk cornerMachine Dialect.modern .first .first 2
      let wrapped := Stamp.mk cornerMachine Dialect.xoChip .first .first 2
      ∃ g, Stamp.drawAll [clipped, wrapped, clipped] .standard = .ok g ∧
        Stamp.drawAll [wrapped, clipped, clipped] .standard = .ok g ∧
        Stamp.drawAll [wrapped] .standard = .ok g) ∧
      ∃ m₁ m₂ : Machine Cycle, (draw .first .first 2).execute Dialect.modern cornerMachine = .ok () m₁ ∧
        m₂ = { m₁ with registers := m₁.registers.setV .flag 7 } ∧
        (draw .first .first 2).execute Dialect.modern m₂ =
          .ok () { m₂ with frame := .standard, registers := m₂.registers.setV .flag 1 } := by
  have hgrid : Frame.standard.IsGrid := Frame.isStandard_standard.grid
  have hread (d : Dialect) : (Stamp.mk cornerMachine d .first .first 2).Readable :=
    Or.inr ⟨Int.le_refl 0, Int.le_refl 2⟩
  obtain ⟨success, perm, cancel, again⟩ :=
    draws_commute_and_cancel (ρ := Cycle) Frame.standard hgrid
  refine ⟨hgrid, ?_, ?_⟩
  · intro clipped wrapped
    obtain ⟨g, hg⟩ : ∃ g, Stamp.drawAll [clipped, wrapped, clipped] .standard = .ok g :=
      (success _).2 (by simp [clipped, wrapped, hread])
    exact ⟨g, hg, perm _ _ g (.swap ..) hg, cancel [] [wrapped] [] clipped clipped g rfl hg⟩
  · obtain ⟨m₁, hfirst⟩ : ∃ m₁, (draw .first .first 2).execute Dialect.modern cornerMachine =
        .ok () m₁ := by
      obtain ⟨_, _, -, -, -, hexec⟩ := execute_draw_of_le Dialect.modern (m := cornerMachine) hgrid
        .first .first (hread Dialect.modern)
      exact ⟨_, hexec⟩
    obtain ⟨erased, hsecond, herased⟩ := again Dialect.modern Dialect.modern cornerMachine m₁
      { m₁ with registers := m₁.registers.setV .flag 7 } .first .first 2 rfl (by decide) (by decide) rfl
      hfirst ⟨rfl, rfl, fun k hk => by rw [Registers.get_setV, if_neg hk]⟩ rfl
    have hunlit : Frame.standard.lit 62 30 = false := by
      rw [Frame.lit, Frame.standard, Memory.byteAt_zeros]
      rfl
    have hon : erased = true := (herased (by decide) (by decide)).2
      ⟨0, by decide, 0, by decide, by decide, 62, 30, by decide, hunlit⟩
    rw [hon] at hsecond
    exact ⟨m₁, _, hfirst, rfl, hsecond⟩

end Instruction

end Chip8
