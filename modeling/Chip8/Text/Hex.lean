/-!
# Hexadecimal text

Addresses, words and bytes are shown in lower case hexadecimal with zeros in front.  A field has a
least width: `hex 4 n` has at least four characters, and a minus sign counts as one of them.
-/

namespace Chip8.Text

/-- The lower case hexadecimal digits of `n`, most significant first, without leading zeros. -/
def hexDigits (n : Nat) : List Char := Nat.toDigits 16 n

/-- The characters of `n` in base sixteen, filled with zeros after the sign to `width` characters. -/
def hexChars (width : Nat) (n : Int) : List Char :=
  if n < 0 then '-' :: (hexDigits n.natAbs).leftpad (width - 1) '0'
  else (hexDigits n.natAbs).leftpad width '0'

/-- The text of `n` in base sixteen, at least `width` characters wide. -/
def hex (width : Nat) (n : Int) : String := String.ofList (hexChars width n)

theorem hexChars_of_nonneg (width : Nat) {n : Int} (h : 0 ≤ n) :
    hexChars width n = (hexDigits n.natAbs).leftpad width '0' := by
  simp [hexChars, Int.not_lt.mpr h]

theorem hexChars_natCast (width n : Nat) :
    hexChars width (n : Int) = (hexDigits n).leftpad width '0' := by
  rw [hexChars_of_nonneg width (Int.natCast_nonneg n), Int.natAbs_natCast]

end Chip8.Text
