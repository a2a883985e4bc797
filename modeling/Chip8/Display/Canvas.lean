import Chip8.Machine.Frame

/-!
# Drawing by differences

A canvas remembers the size and the cells that it showed last.  To draw a frame is to say what has to
change: a new size if the size differs, the cells that differ, row after row, and that the picture is
complete.  After a new size every cell counts as different.
-/

namespace Chip8

/-- A step in drawing a frame. -/
inductive Drawing
  /-- The picture is blank and of this size from now on. -/
  | resize (width height : Int)
  /-- A cell has this value from now on. -/
  | cell (x y : Int) (value : UInt8)
  /-- The picture is complete; `changed` says whether any other step was needed. -/
  | complete (changed : Bool)
deriving DecidableEq, Inhabited

/-- What a canvas remembers. -/
structure Canvas where
  width : Int
  height : Int
  /-- The cells of the frame drawn last, if it had this size. -/
  shown : Option (Array UInt8)
deriving DecidableEq, Inhabited

namespace Canvas

/-- The canvas before anything was drawn. -/
def empty : Canvas := ⟨0, 0, none⟩

/-- The canvas at the size of a frame, with the drawing that it takes. -/
def fit (c : Canvas) (f : Frame) : Canvas × List Drawing :=
  if f.width = c.width ∧ f.height = c.height then (c, [])
  else (⟨f.width, f.height, none⟩, [.resize f.width f.height])

/-- Whether the cell at a place of the plane has to be drawn with a value. -/
def stale (c : Canvas) (place : Nat) (value : UInt8) : Bool :=
  match c.shown with
  | none => true
  | some cells => cells[place]? != some value

/-- The drawing of the cells that differ from those shown. -/
def changes (c : Canvas) (f : Frame) : List Drawing :=
  (f.snapshot.toList.zipIdx.filter fun (value, place) => c.stale place value).map
    fun (value, place) => .cell (Int.fmod place f.width) (Int.fdiv place f.width) value

/-- Whether each cell of a frame can be compared with one shown before, if any was.  Only a new size set
from outside, to which the frame then fits, leaves too few cells. -/
def covers (c : Canvas) (f : Frame) : Bool :=
  match c.shown with
  | none => true
  | some cells => decide (¬ (f.width = c.width ∧ f.height = c.height)) ||
      decide (f.snapshot.size ≤ cells.size)

/-- The drawing of the cells that differ from those shown, up to the first that none was shown for. -/
def knownChanges (c : Canvas) (f : Frame) : List Drawing :=
  c.changes { f with plane := ⟨f.snapshot.extract 0 (c.shown.getD #[]).size⟩ }

/-- Draws a frame. -/
def draw (c : Canvas) (f : Frame) : Canvas × List Drawing :=
  let (c, sizing) := c.fit f
  if c.shown = some f.snapshot then (c, sizing ++ [.complete false])
  else ({ c with shown := some f.snapshot }, sizing ++ c.changes f ++ [.complete true])

/-! ### Drawing again -/

theorem size_fit (c : Canvas) (f : Frame) :
    (c.fit f).1.width = f.width ∧ (c.fit f).1.height = f.height := by
  unfold fit
  split
  · simp_all
  · exact ⟨rfl, rfl⟩

theorem draw_eq (c : Canvas) (f : Frame) : c.draw f =
    if (c.fit f).1.shown = some f.snapshot then
      ((c.fit f).1, (c.fit f).2 ++ [.complete false])
    else
      ({ (c.fit f).1 with shown := some f.snapshot },
        (c.fit f).2 ++ (c.fit f).1.changes f ++ [.complete true]) := rfl

theorem shown_draw (c : Canvas) (f : Frame) : (c.draw f).1.shown = some f.snapshot := by
  rw [draw_eq]
  split
  · assumption
  · rfl

theorem size_draw (c : Canvas) (f : Frame) :
    (c.draw f).1.width = f.width ∧ (c.draw f).1.height = f.height := by
  rw [draw_eq]
  split <;> exact c.size_fit f

end Canvas

end Chip8
