import Chip8.Machine.Memory

/-!
# The frame

The picture that a program draws: a grid of cells, kept row after row in a bank of one byte for each
cell, unlit if the byte is zero.  Programs only ever toggle cells; toggling answers whether a lit
cell was erased.  Positions are any integers.  A position past the right or bottom edge either is
clipped or wraps around.
-/

namespace Chip8

/-- A grid of cells. -/
structure Frame where
  width : Int
  height : Int
  plane : Memory
deriving DecidableEq, Inhabited

namespace Frame

/-- The unlit frame of a size; its number of cells must not be negative. -/
def ofSize (width height : Int) : Except Fault Frame := do
  return ⟨width, height, ← Memory.ofSize (width * height)⟩

/-- The width of the frame that programs draw on. -/
def standardWidth : Nat := 64

/-- The height of the frame that programs draw on. -/
def standardHeight : Nat := 32

/-- The unlit frame that programs draw on. -/
def standard : Frame :=
  ⟨standardWidth, standardHeight, Memory.zeros (standardWidth * standardHeight)⟩

/-- The address of a cell in the plane. -/
def location (f : Frame) (x y : Int) : Int := y * f.width + x

/-- The frame with all cells unlit. -/
def clear (f : Frame) : Frame := { f with plane := f.plane.clear }

/-- Whether a cell is lit. -/
def isLit (f : Frame) (x y : Int) : Except Fault Bool := do
  return (← f.plane.read (f.location x y)) != 0

/-- Lights a cell, or makes it unlit. -/
def setLit (f : Frame) (x y : Int) (lit : Bool) : Except Fault Frame := do
  return { f with plane := ← f.plane.write (f.location x y) (if lit then 1 else 0) }

/-- The bytes of all cells, row after row. -/
def snapshot (f : Frame) : Array UInt8 := f.plane.bytes

/-- The number of lit cells. -/
def litCount (f : Frame) : Nat := f.plane.bytes.countP (· != 0)

/-- The remainder with the sign of the divisor, which must not be zero. -/
def modulo (a b : Int) : Except Fault Int :=
  if b = 0 then .error .zeroDivisor else .ok (Int.fmod a b)

/-- Toggles the cell stored at an address of the plane and answers whether it was lit. -/
def toggleAt (f : Frame) (loc : Int) : Except Fault (Bool × Frame) := do
  let b ← f.plane.read loc
  return (b != 0, { f with plane := f.plane.set loc.toNat (b ^^^ 1) })

/-- Toggles a cell and answers whether it was lit, or nothing if it was clipped. -/
def toggle (f : Frame) (x y : Int) (wrap : Bool) : Except Fault (Option Bool × Frame) := do
  if wrap then
    let x ← modulo x f.width
    let y ← modulo y f.height
    let (lit, f) ← f.toggleAt (f.location x y)
    return (some lit, f)
  else if f.width ≤ x ∨ f.height ≤ y then
    return (none, f)
  else
    let (lit, f) ← f.toggleAt (f.location x y)
    return (some lit, f)

/-- Toggles cells in turn and answers whether a lit one was erased.  If a cell is refused, the ones
before it stay toggled. -/
def toggleAll (wrap : Bool) : List (Int × Int) → EStateM Fault Frame Bool
  | [] => pure false
  | (x, y) :: cells => fun f =>
    match f.toggle x y wrap with
    | .error fault => .error fault f
    | .ok (erased, f) => ((erased == some true || ·) <$> toggleAll wrap cells) f

/-- The cells of a sprite row: the set bits of its byte, the top bit leftmost, from `(x, y)`
rightwards. -/
def rowCells (bits : UInt8) (x y : Int) : List (Int × Int) :=
  ((List.range 8).filter fun k => bits.toNat.testBit (7 - k)).map fun (k : Nat) => (x + k, y)

end Frame

end Chip8
