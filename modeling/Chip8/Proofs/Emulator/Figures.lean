import Chip8.Emulator.Basic
import Chip8.Proofs.Text.Numerals

/-!
# Figures in titles

A title is words with blanks between them, and a figure in it is the number in front of a certain word.
The title of a report has the figures that it reports (`figure?_fps`, `figure?_ops`), so they can be
told from the text that a front end is given.
-/

namespace Chip8

open Text

/-- The number that decimal digits write. -/
def decimal? (word : List Char) : Option Nat :=
  if word ≠ [] ∧ word.all Char.isDigit then some (Nat.ofDigitChars 10 word 0) else none

/-- The number in front of the first word that is the given one. -/
def numberBefore? (word : List Char) : List (List Char) → Option Nat
  | number :: next :: words =>
    if next = word then decimal? number else numberBefore? word (next :: words)
  | _ => none

/-- The figure in a title that stands in front of a word. -/
def figure? (word title : String) : Option Nat :=
  numberBefore? word.toList (title.toList.splitOn ' ')

section Words

variable {word next number : List Char} {words : List (List Char)}

theorem numberBefore?_of_eq : numberBefore? word (number :: word :: words) = decimal? number :=
  if_pos rfl

theorem numberBefore?_of_ne (h : next ≠ word) :
    numberBefore? word (number :: next :: words) = numberBefore? word (next :: words) :=
  if_neg h

end Words

section Digits

variable (n : Nat)

theorem decimal?_toDigits : decimal? (Nat.toDigits 10 n) = some n := by
  have hdigits : (Nat.toDigits 10 n).all Char.isDigit = true :=
    List.all_eq_true.2 fun c => isDigit_of_mem_decimal
  rw [decimal?, if_pos ⟨Nat.toDigits_ne_nil, hdigits⟩, Nat.ofDigitChars_ten_toDigits]

/-- A word with a character that is no digit is not a number. -/
theorem toDigits_ne {word : List Char} {c : Char} (hc : c ∈ word) (hdigit : c.isDigit = false) :
    Nat.toDigits 10 n ≠ word := by
  rintro rfl
  rw [isDigit_of_mem_decimal hc] at hdigit
  cases hdigit

theorem blank_notMem_toDigits : ' ' ∉ Nat.toDigits 10 n :=
  fun hblank => absurd (isDigit_of_mem_decimal hblank) (by decide)

end Digits

/-! ### The title of a report -/

variable (pictures operations : Nat)

/-- The words of the title of a report. -/
def perfWords : List (List Char) :=
  ["OctaChip".toList, "Emulator".toList, "-".toList, Nat.toDigits 10 pictures, "FPS,".toList,
    Nat.toDigits 10 operations, "OPS".toList]

theorem toList_perfTitle :
    (perfTitle pictures operations).toList = [' '].intercalate (perfWords pictures operations) := by
  have hdigits (n : Nat) : (toString (n : Int)).toList = Nat.toDigits 10 n := Nat.toList_repr
  simp only [perfTitle, String.toList_append, hdigits]
  simp [perfWords, appName]

theorem splitOn_perfTitle :
    (perfTitle pictures operations).toList.splitOn ' ' = perfWords pictures operations := by
  rw [toList_perfTitle]
  apply List.splitOn_intercalate
  · simp only [perfWords, List.forall_mem_cons]
    exact ⟨by decide, by decide, by decide, blank_notMem_toDigits pictures, by decide,
      blank_notMem_toDigits operations, by decide, nofun⟩
  · exact List.cons_ne_nil _ _

theorem figure?_fps : figure? "FPS," (perfTitle pictures operations) = some pictures := by
  have hpictures : Nat.toDigits 10 pictures ≠ "FPS,".toList :=
    toDigits_ne pictures (c := ',') (by decide) rfl
  rw [figure?, splitOn_perfTitle, perfWords, numberBefore?_of_ne (by decide),
    numberBefore?_of_ne (by decide), numberBefore?_of_ne hpictures, numberBefore?_of_eq,
    decimal?_toDigits]

theorem figure?_ops : figure? "OPS" (perfTitle pictures operations) = some operations := by
  have hne (n : Nat) : Nat.toDigits 10 n ≠ "OPS".toList := toDigits_ne n (c := 'O') (by decide) rfl
  rw [figure?, splitOn_perfTitle, perfWords, numberBefore?_of_ne (by decide),
    numberBefore?_of_ne (by decide), numberBefore?_of_ne (hne pictures),
    numberBefore?_of_ne (by decide), numberBefore?_of_ne (hne operations), numberBefore?_of_eq,
    decimal?_toDigits]

end Chip8
