import Chip8.Proofs.Text.HexDigits

/-!
# Texts of one line

A text is one line if it has no line break in it.  Numbers are (`oneLine_hex`, `oneLine_toString`), and
what is put together from such texts is.
-/

namespace Chip8.Text

/-- Whether a text has no line break in it. -/
def OneLine (s : String) : Prop := '\n' ∉ s.toList

instance (s : String) : Decidable (OneLine s) := inferInstanceAs (Decidable ('\n' ∉ s.toList))

theorem oneLine_append {s t : String} : OneLine (s ++ t) ↔ OneLine s ∧ OneLine t := by
  simp only [OneLine, String.toList_append, List.mem_append, not_or]

theorem oneLine_hex (width : Nat) (n : Int) : OneLine (hex width n) :=
  notMem_hex (by decide) (by decide) width n

theorem oneLine_toString (n : Nat) : OneLine (toString n) := by
  intro hnewline
  rw [Nat.toString_eq_repr, Nat.toList_repr] at hnewline
  exact absurd (Nat.isDigit_of_mem_toDigits (by decide) (by decide) hnewline) (by decide)

end Chip8.Text
