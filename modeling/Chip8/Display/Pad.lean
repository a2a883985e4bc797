/-!
# Pads

A pad is a grid of character cells kept out of sight, written piece by piece and copied to the terminal
as a whole.  It is held row by row as far as each row was written; every other cell is a blank.
-/

namespace Chip8

/-- A character, in reverse video or not. -/
structure PadCell where
  char : Char
  reverse : Bool
deriving DecidableEq, Inhabited

/-- What a cell shows before it is written. -/
def PadCell.blank : PadCell := ⟨' ', false⟩

/-- A grid of character cells. -/
structure Pad where
  rows : Int
  columns : Int
  /-- The rows as far as they were written. -/
  cells : Array (Array PadCell)
  /-- The number of writes since the last copy to the terminal. -/
  writes : Nat
deriving DecidableEq, Inhabited

namespace Pad

/-- A pad on which nothing was written. -/
def blank (rows columns : Int) : Pad := ⟨rows, columns, #[], 0⟩

/-- An array made at least `n` long, by a value at its end. -/
def extend {α : Type} (a : Array α) (n : Nat) (fill : α) : Array α :=
  a ++ Array.replicate (n - a.size) fill

/-- The row with the cells from `column` on replaced. -/
def writeRow (row : Array PadCell) (column : Nat) (reverse : Bool) : List Char → Array PadCell
  | [] => row
  | c :: text =>
    writeRow ((extend row (column + 1) PadCell.blank).setIfInBounds column ⟨c, reverse⟩) (column + 1)
      reverse text

/-- The cell at a place. -/
def cell (p : Pad) (row column : Nat) : PadCell :=
  (p.cells.getD row #[]).getD column PadCell.blank

/-- Writes a text from a place rightwards; what would come before the first row or column is
dropped. -/
def write (p : Pad) (row column : Int) (text : List Char) (reverse : Bool) : Pad :=
  let visible := text.drop (-column).toNat
  let cells :=
    if row < 0 ∨ visible = [] then p.cells
    else (extend p.cells (row.toNat + 1) #[]).modify row.toNat fun cs =>
      writeRow cs column.toNat reverse visible
  { p with cells, writes := p.writes + 1 }

/-- The pad after it was copied to the terminal. -/
def copied (p : Pad) : Pad := { p with writes := 0 }

/-- Whether a row shows anything but blanks. -/
def showsAnything (row : Array PadCell) : Bool := row.any (· != PadCell.blank)

/-- The rows that show anything, with their numbers. -/
def visibleRows (p : Pad) : List (Nat × List PadCell) :=
  (p.cells.toList.zipIdx.filter fun (row, _) => showsAnything row).map fun (row, k) => (k, row.toList)

end Pad

end Chip8
