import Mathlib.Data.List.Induction
import Mathlib.Tactic.Push
import Chip8.Display.Canvas
import Chip8.Proofs.Machine.Pictures

/-!
# Mirrors of the frame

A display that does nothing but follow the steps of drawing is a mirror: a grid that becomes blank at a
new size and takes cells one by one.  After every drawing the mirror is the frame that was drawn
(`Mirror.ofFrame`), although only cells that differ from the frame drawn before were sent.  The
invariant is `Follower.Shows`: canvas and mirror both stand at the last frame.
-/

namespace Chip8

/-! ### Mirrors -/

/-- A grid that follows drawings; a cell has nothing to show until it was sent. -/
structure Mirror where
  width : Int
  height : Int
  cells : Int → Int → Option UInt8

namespace Mirror

/-- A grid with nothing to show. -/
def blank (width height : Int) : Mirror := ⟨width, height, fun _ _ => none⟩

/-- The grid after a step of drawing. -/
def take (m : Mirror) : Drawing → Mirror
  | .resize width height => blank width height
  | .cell x y value =>
    { m with cells := fun u v => if u = x ∧ v = y then some value else m.cells u v }
  | .complete _ => m

/-- The grid after steps of drawing. -/
def takeAll (m : Mirror) (steps : List Drawing) : Mirror := steps.foldl take m

/-- The grid that shows a frame. -/
def ofFrame (f : Frame) : Mirror :=
  ⟨f.width, f.height, fun x y => if f.Holds x y then some (f.cell x y) else none⟩

theorem takeAll_append (m : Mirror) (steps more : List Drawing) :
    m.takeAll (steps ++ more) = (m.takeAll steps).takeAll more :=
  List.foldl_append

/-- Cells that are sent from a frame are shown as in the frame, and the others as before. -/
theorem takeAll_cells (m : Mirror) (f : Frame) (writes : List (Int × Int)) :
    m.takeAll (writes.map fun p => .cell p.1 p.2 (f.cell p.1 p.2)) =
      ⟨m.width, m.height,
        fun x y => if (x, y) ∈ writes then some (f.cell x y) else m.cells x y⟩ := by
  induction writes generalizing m with
  | nil => simp [takeAll]
  | cons p writes ih =>
    rw [List.map_cons, takeAll, List.foldl_cons, ← takeAll, ih]
    simp only [take, List.mem_cons, Mirror.mk.injEq, true_and]
    funext x y
    by_cases hw : (x, y) ∈ writes
    · simp [hw]
    · by_cases hp : (x, y) = p
      · subst hp
        simp [hw]
      · have hne : ¬(x = p.1 ∧ y = p.2) := fun h => hp (Prod.ext h.1 h.2)
        simp [hw, hp, hne]

end Mirror

/-! ### One drawing -/

/-- A position comes before another in a grid that is read row after row. -/
def RowMajor (p q : Int × Int) : Prop := p.2 < q.2 ∨ (p.2 = q.2 ∧ p.1 < q.1)

namespace Canvas

/-- The cells that a drawing sends. -/
def writes (c : Canvas) (f : Frame) : List (Int × Int) :=
  ((List.range f.plane.size).filter fun place => c.stale place (f.plane.byteAt place)).map f.position

variable {f : Frame} (c : Canvas)

theorem changes_eq (hf : f.IsPicture) :
    c.changes f = (c.writes f).map fun p => .cell p.1 p.2 (f.cell p.1 p.2) := by
  have hzip : f.snapshot.toList.zipIdx =
      (List.range f.plane.size).map fun (place : Nat) => (f.plane.byteAt place, place) := by
    apply List.ext_getElem
    · simp [Frame.snapshot, Memory.size]
    · intro place hp _
      have hlt : place < f.plane.bytes.size := by simpa [Frame.snapshot] using hp
      simp [Frame.snapshot, Memory.byteAt, hlt]
  rw [changes, writes, hzip, List.filter_map, List.map_map, List.map_map]
  apply List.map_congr_left
  intro place _
  simp only [Function.comp_apply, hf.cell_position]
  rfl

theorem mem_writes_iff (hf : f.IsPicture) {x y : Int} :
    (x, y) ∈ c.writes f ↔
      f.Holds x y ∧ c.stale (f.location x y).toNat (f.cell x y) = true := by
  simp only [writes, List.mem_map, List.mem_filter, List.mem_range]
  constructor
  · rintro ⟨place, ⟨hp, hs⟩, he⟩
    have hhold := hf.holds_position hp
    have hloc := hf.location_position place
    have hcell := hf.cell_position place
    simp only [he] at hhold hloc hcell
    refine ⟨hhold, ?_⟩
    rw [hloc, hcell, Int.toNat_natCast]
    exact hs
  · rintro ⟨hhold, hs⟩
    obtain ⟨place, hp, he⟩ := hf.exists_place hhold
    have hloc := hf.location_position place
    have hcell := hf.cell_position place
    simp only [he] at hloc hcell
    rw [hloc, hcell, Int.toNat_natCast] at hs
    exact ⟨place, ⟨hp, hs⟩, he⟩

theorem rowMajor_position (hf : f.IsPicture) {p q : Nat} (h : p < q) (hq : q < f.plane.size) :
    RowMajor (f.position p) (f.position q) := by
  have hw := hf.width_pos hq
  rw [hf.position_eq, hf.position_eq]
  have hle : (p : Int) / f.width ≤ q / f.width := Int.ediv_le_ediv hw (by omega)
  rcases Int.lt_or_eq_of_le hle with hlt | heq
  · exact Or.inl hlt
  · right
    refine ⟨heq, ?_⟩
    have hp := Int.emod_add_mul_ediv (p : Int) f.width
    have hq' := Int.emod_add_mul_ediv (q : Int) f.width
    rw [heq] at hp
    show (p : Int) % f.width < q % f.width
    omega

theorem pairwise_writes (hf : f.IsPicture) : (c.writes f).Pairwise RowMajor := by
  rw [writes, List.pairwise_map]
  refine List.Pairwise.imp_of_mem ?_ (List.pairwise_lt_range.filter _)
  intro p q _ hq hlt
  exact rowMajor_position hf hlt (List.mem_range.1 (List.mem_filter.1 hq).1)

/-- Nothing is stale of a picture with the cells that are shown. -/
theorem writes_eq_nil (h : c.shown = some f.snapshot) : c.writes f = [] := by
  rw [writes, List.map_eq_nil_iff, List.filter_eq_nil_iff]
  intro place hp
  have hlt : place < f.plane.bytes.size := List.mem_range.1 hp
  simp [stale, h, Frame.snapshot, Memory.byteAt, hlt]

/-- A drawing is a new size if there is one, the cells sent, and completion. -/
theorem steps_draw (hf : f.IsPicture) :
    (c.draw f).2 = (c.fit f).2 ++
      ((c.fit f).1.writes f).map (fun p => .cell p.1 p.2 (f.cell p.1 p.2)) ++
      [.complete (decide ((c.fit f).1.shown ≠ some f.snapshot))] := by
  rw [draw_eq, ← changes_eq _ hf]
  by_cases hs : (c.fit f).1.shown = some f.snapshot
  · rw [if_pos hs, changes_eq _ hf, writes_eq_nil _ hs]
    simp [hs]
  · rw [if_neg hs]
    simp [hs]

theorem fit_of_same (h : f.width = c.width ∧ f.height = c.height) : c.fit f = (c, []) := if_pos h

theorem fit_of_ne (h : ¬(f.width = c.width ∧ f.height = c.height)) :
    c.fit f = (⟨f.width, f.height, none⟩, [.resize f.width f.height]) := if_neg h

end Canvas

/-! ### Drawing after drawing -/

/-- A canvas and a mirror that follows its drawings. -/
structure Follower where
  canvas : Canvas
  mirror : Mirror

namespace Follower

/-- Before anything was drawn. -/
def start : Follower := ⟨.empty, .blank 0 0⟩

/-- After one more drawing. -/
def draw (s : Follower) (f : Frame) : Follower :=
  ⟨(s.canvas.draw f).1, s.mirror.takeAll (s.canvas.draw f).2⟩

/-- After drawings in turn. -/
def drawAll (frames : List Frame) : Follower := frames.foldl draw start

/-- Canvas and mirror both stand at the last frame, or at the start if there was none. -/
def Shows (s : Follower) : Option Frame → Prop
  | none => s = start
  | some g => g.IsPicture ∧ s.canvas = ⟨g.width, g.height, some g.snapshot⟩ ∧ s.mirror = .ofFrame g

/-- How the next drawing begins: at once if it has the size of the last one, and on a blank grid
otherwise.  A first frame without cells needs no new grid. -/
inductive Beginning (s : Follower) (last : Option Frame) (f : Frame) : Prop
  | same (g : Frame) (isLast : last = some g) (size : g.SameSize f) (picture : g.IsPicture)
      (fit : s.canvas.fit f = (⟨f.width, f.height, some g.snapshot⟩, []))
      (mirror : s.mirror = .ofFrame g)
  | fresh (sizing : List Drawing) (size : ∀ g, last = some g → ¬g.SameSize f)
      (fit : s.canvas.fit f = (⟨f.width, f.height, none⟩, sizing))
      (mirror : s.mirror.takeAll sizing = .blank f.width f.height)
      (steps : sizing = [] ∨ sizing = [.resize f.width f.height])

theorem Shows.beginning {s : Follower} {last : Option Frame} (hs : s.Shows last) (f : Frame) :
    s.Beginning last f := by
  cases last with
  | none =>
    cases hs
    by_cases h₀ : f.width = 0 ∧ f.height = 0
    · refine .fresh [] (by simp) ?_ ?_ (Or.inl rfl)
      · rw [Canvas.fit_of_same _ h₀, h₀.1, h₀.2]
        rfl
      · rw [h₀.1, h₀.2]
        rfl
    · exact .fresh _ (by simp) (Canvas.fit_of_ne _ h₀) rfl (Or.inr rfl)
  | some g =>
    obtain ⟨hg, hc, hm⟩ := hs
    by_cases hsize : g.SameSize f
    · refine .same g rfl hsize hg ?_ hm
      rw [hc, Canvas.fit_of_same _ ⟨hsize.1.symm, hsize.2.symm⟩, hsize.1, hsize.2]
    · refine .fresh [.resize f.width f.height] ?_ ?_ rfl (Or.inr rfl)
      · rintro g' hg'
        cases hg'
        exact hsize
      · rw [hc]
        exact Canvas.fit_of_ne _ fun h => hsize ⟨h.1.symm, h.2.symm⟩

section Step

variable {s : Follower} {last : Option Frame} {f : Frame}

theorem Beginning.mem_writes_iff (hb : s.Beginning last f) (hf : f.IsPicture) {x y : Int} :
    (x, y) ∈ (s.canvas.fit f).1.writes f ↔ f.Holds x y ∧
      ∀ g, last = some g → g.SameSize f → f.cell x y ≠ g.cell x y := by
  rw [Canvas.mem_writes_iff _ hf]
  refine and_congr_right fun hxy => ?_
  cases hb with
  | fresh sizing hsize hfit =>
    rw [hfit]
    exact iff_of_true rfl fun g hg h => absurd h (hsize g hg)
  | same g hlast hsize hg hfit =>
    have hloc : g.location x y = f.location x y := by
      rw [Frame.location, Frame.location, hsize.1]
    have hbounds := Frame.location_bounds hg.size_eq (x := x) (y := y)
      (by rw [Frame.Holds, hsize.1, hsize.2]; exact hxy)
    have hcell : g.snapshot[(f.location x y).toNat]? = some (g.cell x y) := by
      rw [hloc] at hbounds
      have hlt : (f.location x y).toNat < g.plane.bytes.size := by
        have : (f.location x y).toNat < g.plane.size := by omega
        exact this
      rw [Frame.cell, hloc]
      simp [Frame.snapshot, Memory.byteAt, hlt]
    rw [hfit]
    simp only [Canvas.stale, hcell, bne_iff_ne, ne_eq, Option.some.injEq, hlast, forall_eq', hsize,
      forall_const]
    exact ne_comm

theorem Beginning.changed_iff (hb : s.Beginning last f) (hf : f.IsPicture) :
    (s.canvas.fit f).1.shown ≠ some f.snapshot ↔
      ∀ g, last = some g → g.SameSize f → ∃ x y, f.Holds x y ∧ f.cell x y ≠ g.cell x y := by
  cases hb with
  | fresh sizing hsize hfit =>
    rw [hfit]
    exact iff_of_true (by simp) fun g hg h => absurd h (hsize g hg)
  | same g hlast hsize hg hfit =>
    rw [hfit]
    simp only [ne_eq, Option.some.injEq, hf.snapshot_eq_iff hg hsize, hlast, forall_eq', hsize,
      forall_const]
    push Not
    rfl

theorem Beginning.sizing (hb : s.Beginning last f) :
    ((s.canvas.fit f).2 = [] ∨ (s.canvas.fit f).2 = [.resize f.width f.height]) ∧
      (s.mirror.takeAll (s.canvas.fit f).2).width = f.width ∧
      (s.mirror.takeAll (s.canvas.fit f).2).height = f.height := by
  cases hb with
  | fresh sizing _ hfit hmirror hsteps =>
    rw [hfit, hmirror]
    exact ⟨hsteps, rfl, rfl⟩
  | same g _ hsize _ hfit hmirror =>
    rw [hfit, hmirror]
    exact ⟨Or.inl rfl, hsize.1, hsize.2⟩

theorem Beginning.mirror_eq (hb : s.Beginning last f) (hf : f.IsPicture) :
    s.mirror.takeAll (s.canvas.draw f).2 = .ofFrame f := by
  have hsize := hb.sizing.2
  have hmem {x y : Int} := hb.mem_writes_iff hf (x := x) (y := y)
  rw [Canvas.steps_draw _ hf, Mirror.takeAll_append, Mirror.takeAll_append, Mirror.takeAll_cells]
  simp only [Mirror.takeAll, List.foldl_cons, List.foldl_nil, Mirror.take, Mirror.ofFrame,
    Mirror.mk.injEq]
  refine ⟨hsize.1, hsize.2, ?_⟩
  funext x y
  rw [← Mirror.takeAll]
  by_cases hw : (x, y) ∈ (s.canvas.fit f).1.writes f
  · rw [if_pos hw, if_pos (hmem.1 hw).1]
  · rw [if_neg hw]
    rw [hmem, not_and] at hw
    cases hb with
    | fresh sizing hsize hfit hmirror =>
      rw [hfit, hmirror, if_neg fun h => hw h fun g hg hs => absurd hs (hsize g hg)]
      rfl
    | same g hlast hsize _ hfit hmirror =>
      have hholds : g.Holds x y ↔ f.Holds x y := by
        rw [Frame.Holds, Frame.Holds, hsize.1, hsize.2]
      rw [hfit, hmirror]
      show (if g.Holds x y then some (g.cell x y) else none) = _
      by_cases h : f.Holds x y
      · have hcell : f.cell x y = g.cell x y := by
          refine by_contra fun hne => hw h fun g' hg' _ => ?_
          cases hlast.symm.trans hg'
          exact hne
        rw [if_pos (hholds.2 h), if_pos h, hcell]
      · rw [if_neg (fun h' => h (hholds.1 h')), if_neg h]

/-- No cell is compared with one that was never shown. -/
theorem Beginning.covers (hb : s.Beginning last f) (hf : f.IsPicture) :
    s.canvas.covers f = true := by
  by_cases hfits : f.width = s.canvas.width ∧ f.height = s.canvas.height
  · have hkept := Canvas.fit_of_same s.canvas hfits
    cases hb with
    | fresh sizing _ hfit =>
      have hshown : s.canvas.shown = none :=
        congrArg Canvas.shown (Prod.mk.inj (hkept.symm.trans hfit)).1
      simp only [Canvas.covers, hshown]
    | same g _ hsize hg hfit =>
      have hshown : s.canvas.shown = some g.snapshot :=
        congrArg Canvas.shown (Prod.mk.inj (hkept.symm.trans hfit)).1
      have hcells : f.plane.size = g.plane.size := by
        have hsf := hf.size_eq
        rw [← hsize.1, ← hsize.2, ← hg.size_eq] at hsf
        omega
      have hle : f.snapshot.size ≤ g.snapshot.size := Nat.le_of_eq hcells
      simp [Canvas.covers, hshown, hle]
  · rw [Canvas.covers]
    split
    · rfl
    · simp [hfits]

/-- A drawing brings canvas and mirror to its frame. -/
theorem Shows.draw (hs : s.Shows last) (hf : f.IsPicture) : (s.draw f).Shows (some f) := by
  obtain ⟨hw, hh⟩ := s.canvas.size_draw f
  have hshown := s.canvas.shown_draw f
  refine ⟨hf, ?_, (hs.beginning f).mirror_eq hf⟩
  show (s.canvas.draw f).1 = _
  rw [← hw, ← hh, ← hshown]

end Step

theorem shows_drawAll {frames : List Frame} (h : ∀ g ∈ frames, g.IsPicture) :
    (drawAll frames).Shows frames.getLast? := by
  induction frames using List.reverseRecOn with
  | nil => rfl
  | append_singleton frames f ih =>
    have hframes := ih fun g hg => h g (List.mem_append_left _ hg)
    rw [drawAll, List.foldl_append, List.getLast?_concat]
    exact hframes.draw (h f (by simp))

/-- Whatever frames were drawn before, a drawing is a new size if there is one, the cells that differ or
all, and one completion, which says whether anything did; the mirror of all steps shows the frame. -/
theorem drawing_mirrors (frames : List Frame) (f : Frame)
    (h : ∀ g ∈ frames ++ [f], g.IsPicture) :
    let s := drawAll frames
    let last := frames.getLast?
    ∃ (sizing : List Drawing) (cells : List (Int × Int)) (changed : Bool),
      (s.canvas.draw f).2 =
        sizing ++ cells.map (fun p => .cell p.1 p.2 (f.cell p.1 p.2)) ++ [.complete changed] ∧
      s.canvas.covers f = true ∧
      (drawAll (frames ++ [f])).mirror = .ofFrame f ∧
      ((sizing = [] ∨ sizing = [.resize f.width f.height]) ∧
        (s.mirror.takeAll sizing).width = f.width ∧
        (s.mirror.takeAll sizing).height = f.height) ∧
      ((∀ p ∈ cells, f.Holds p.1 p.2) ∧ cells.Nodup ∧ cells.Pairwise RowMajor) ∧
      (∀ g, last = some g → g.SameSize f →
        ∀ x y, (x, y) ∈ cells ↔ f.Holds x y ∧ f.cell x y ≠ g.cell x y) ∧
      ((∀ g, last = some g → ¬g.SameSize f) → ∀ x y, (x, y) ∈ cells ↔ f.Holds x y) ∧
      (changed = true ↔ last = none ∨ (∃ g, last = some g ∧ ¬g.SameSize f) ∨
        ∃ g, last = some g ∧ ∃ x y, f.Holds x y ∧ f.cell x y ≠ g.cell x y) := by
  intro s last
  have hf : f.IsPicture := h f (by simp)
  have hs : s.Shows last := shows_drawAll fun g hg => h g (List.mem_append_left _ hg)
  have hb := hs.beginning f
  have hmem {x y : Int} := hb.mem_writes_iff hf (x := x) (y := y)
  refine ⟨(s.canvas.fit f).2, (s.canvas.fit f).1.writes f, _, Canvas.steps_draw _ hf, hb.covers hf,
    ?_, hb.sizing, ⟨fun p hp => (hmem.1 hp).1, ?_, Canvas.pairwise_writes _ hf⟩, ?_, ?_, ?_⟩
  · rw [drawAll, List.foldl_append]
    exact hb.mirror_eq hf
  · refine (Canvas.pairwise_writes _ hf).imp ?_
    rintro p q hpq rfl
    rcases hpq with hlt | ⟨-, hlt⟩ <;> exact absurd hlt (Int.lt_irrefl _)
  · intro g hg hsize x y
    rw [hmem]
    refine and_congr_right fun _ => ⟨fun hne => hne g hg hsize, fun hne g' hg' _ => ?_⟩
    cases hg.symm.trans hg'
    exact hne
  · intro hfresh x y
    rw [hmem, and_iff_left]
    exact fun g hg hsize => absurd hsize (hfresh g hg)
  · rw [decide_eq_true_iff, hb.changed_iff hf]
    cases hl : last with
    | none => simp
    | some g =>
      by_cases hsize : g.SameSize f <;> simp [hsize]

/-- A frame of two columns, one of three columns with the same bytes, and the latter with one cell
changed: the third drawing sends that cell alone. -/
theorem drawing_mirrors_of_resize :
    let tall : Frame := ⟨2, 3, ⟨#[0, 1, 0, 1, 1, 0]⟩⟩
    let wide : Frame := ⟨3, 2, ⟨#[0, 1, 0, 1, 1, 0]⟩⟩
    let next : Frame := ⟨3, 2, ⟨#[0, 1, 0, 1, 0, 0]⟩⟩
    (∀ g ∈ [tall, wide, next], g.IsPicture) ∧
      (drawAll [tall, wide]).mirror = .ofFrame wide ∧
      (drawAll [tall, wide, next]).mirror = .ofFrame next ∧
      ∃ (sizing : List Drawing) (cells : List (Int × Int)),
        ((drawAll [tall, wide]).canvas.draw next).2 =
          sizing ++ cells.map (fun p => .cell p.1 p.2 (next.cell p.1 p.2)) ++ [.complete true] ∧
        ∀ x y, (x, y) ∈ cells ↔ next.Holds x y ∧ next.cell x y ≠ wide.cell x y := by
  intro tall wide next
  have hpictures : ∀ g ∈ [tall, wide, next], g.IsPicture := by
    intro g hg
    simp only [List.mem_cons, List.not_mem_nil, or_false] at hg
    rcases hg with rfl | rfl | rfl <;> exact ⟨by decide, by decide, by decide⟩
  obtain ⟨-, -, -, -, -, hwide, -⟩ :=
    drawing_mirrors [tall] wide fun g hg => hpictures g (List.mem_append_left [next] hg)
  obtain ⟨sizing, cells, changed, hsteps, -, hnext, -, -, hdiffer, -, hchanged⟩ :=
    drawing_mirrors [tall, wide] next hpictures
  have hyes : changed = true :=
    hchanged.2 (Or.inr (Or.inr ⟨wide, rfl, 1, 1, by decide, by decide⟩))
  subst hyes
  exact ⟨hpictures, hwide, hnext, sizing, cells, hsteps, hdiffer wide rfl ⟨rfl, rfl⟩⟩

end Follower

end Chip8
