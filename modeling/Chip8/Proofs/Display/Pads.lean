import Chip8.Display.Pad

/-!
# Cells of a pad

A write replaces the cells from its place rightwards by its text and no others (`cell_write`).  Rows and
pads grow as they are written, which does not show: what lies outside is a blank.
-/

namespace Chip8

namespace Pad

theorem getD_extend {α : Type} (a : Array α) (n : Nat) (fill : α) (k : Nat) :
    (extend a n fill).getD k fill = a.getD k fill := by
  rw [extend, Array.getD_eq_getD_getElem?, Array.getD_eq_getD_getElem?, Array.getElem?_append]
  split
  · rfl
  · next h =>
    rw [Array.getElem?_eq_none (Nat.le_of_not_lt h), Array.getElem?_replicate]
    split <;> rfl

theorem lt_size_extend {α : Type} (a : Array α) (n : Nat) (fill : α) :
    n < (extend a (n + 1) fill).size := by
  rw [extend, Array.size_append, Array.size_replicate]
  omega

theorem getD_writeRow (row : Array PadCell) (column : Nat) (reverse : Bool) (text : List Char)
    (k : Nat) :
    (writeRow row column reverse text).getD k .blank =
      if column ≤ k ∧ k < column + text.length then ⟨text.getD (k - column) ' ', reverse⟩
      else row.getD k .blank := by
  induction text generalizing row column with
  | nil => rw [writeRow, if_neg (by simp)]
  | cons c text ih =>
    have hsize := lt_size_extend row column PadCell.blank
    have hset :
        ((extend row (column + 1) PadCell.blank).setIfInBounds column ⟨c, reverse⟩).getD k .blank =
          if k = column then ⟨c, reverse⟩ else row.getD k .blank := by
      rw [← getD_extend row (column + 1) PadCell.blank k, Array.getD_eq_getD_getElem?,
        Array.getElem?_setIfInBounds, Array.getD_eq_getD_getElem?]
      by_cases hk : k = column
      · subst hk
        rw [if_pos rfl, if_pos hsize, if_pos rfl]
        rfl
      · rw [if_neg (Ne.symm hk), if_neg hk]
    rw [writeRow, ih, hset, List.length_cons]
    by_cases hk : k = column
    · subst hk
      rw [if_neg (by omega), if_pos rfl, if_pos (by omega), Nat.sub_self]
      rfl
    · by_cases hin : column + 1 ≤ k ∧ k < column + 1 + text.length
      · rw [if_pos hin, if_pos (by omega), show k - column = k - (column + 1) + 1 by omega]
        rfl
      · rw [if_neg hin, if_neg hk, if_neg (by omega)]

/-- A write into the pad shows its text from its place rightwards, and leaves the other cells. -/
theorem cell_write (p : Pad) {row column : Int} (hr : 0 ≤ row) (hc : 0 ≤ column) (text : List Char)
    (reverse : Bool) (r c : Nat) :
    (p.write row column text reverse).cell r c =
      if (r : Int) = row ∧ column ≤ c ∧ c < column + text.length then
        ⟨text.getD (c - column.toNat) ' ', reverse⟩
      else p.cell r c := by
  have hdrop : (-column).toNat = 0 := by omega
  by_cases hnil : text = []
  · subst hnil
    rw [if_neg (by simp)]
    simp [write, cell]
  · have hsize := lt_size_extend p.cells row.toNat #[]
    simp only [write, cell, hdrop, List.drop_zero, hnil, or_false, if_neg (Int.not_lt.2 hr)]
    have hmodify : ((extend p.cells (row.toNat + 1) #[]).modify row.toNat fun cs =>
        writeRow cs column.toNat reverse text).getD r #[] =
          if r = row.toNat then writeRow (p.cells.getD r #[]) column.toNat reverse text
          else p.cells.getD r #[] := by
      rw [← getD_extend p.cells (row.toNat + 1) #[] r, Array.getD_eq_getD_getElem?,
        Array.getElem?_modify, Array.getD_eq_getD_getElem?]
      by_cases hrow : row.toNat = r
      · subst hrow
        rw [if_pos rfl, if_pos rfl, Array.getElem?_eq_getElem hsize]
        rfl
      · rw [if_neg hrow, if_neg (Ne.symm hrow)]
    rw [hmodify]
    by_cases hrow : r = row.toNat
    · rw [if_pos hrow, getD_writeRow]
      refine ite_congr (propext ?_) (fun _ => rfl) fun _ => rfl
      omega
    · rw [if_neg hrow, if_neg (by omega)]

end Pad

end Chip8
