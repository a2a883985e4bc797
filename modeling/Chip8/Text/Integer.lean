import Chip8.Text.Blank
import Chip8.Text.Digit

/-!
# Integers in text

The grammar of an integer written by a person: blanks around it, a sign, an optional mark of the
base, then digits in groups joined by single underscores.  Digits of any script count as decimal
digits, letters only as the ASCII letters of base sixteen.
-/

namespace Chip8.Text

/-- The bases that integers are written in. -/
inductive Base
  | ten | sixteen
deriving DecidableEq, Inhabited

/-- The number of digits of a base. -/
def Base.size : Base → Nat
  | .ten => 10
  | .sixteen => 16

/-- The most digits that an integer may have: the time to read base ten grows with their square. -/
def Base.admits (b : Base) (digits : Nat) : Bool :=
  match b with
  | .ten => decide (digits ≤ 4300)
  | .sixteen => true

/-- The value of an ASCII digit or letter, as a digit of base thirty-six. -/
def asciiDigitValue? (c : Char) : Option Nat :=
  let n := c.toNat
  if 48 ≤ n ∧ n ≤ 57 then some (n - 48)
  else if 97 ≤ n ∧ n ≤ 122 then some (n - 87)
  else if 65 ≤ n ∧ n ≤ 90 then some (n - 55)
  else none

/-- The value of a digit of a base. -/
def Base.digit? (b : Base) (c : Char) : Option Nat :=
  (asciiDigitValue? c).filter (· < b.size)

/-- The character that stands for one outside ASCII: a blank, a digit, or one that no number has. -/
def plainChar (c : Char) : Char :=
  if c.toNat < 127 then c
  else if isWideBlank c then ' '
  else match digitValue? c with
    | some d => Char.ofNat (48 + d)
    | none => '?'

/-- The number with the digits `ds`, most significant first. -/
def Base.value (b : Base) (ds : List Nat) : Nat := ds.foldl (fun n d => b.size * n + d) 0

/-- The digits of one group, which is not empty. -/
def Base.group? (b : Base) (cs : List Char) : Option (List Nat) :=
  if cs.isEmpty then none else cs.mapM b.digit?

/-- The digits of groups joined by single underscores. -/
def Base.digits? (b : Base) (cs : List Char) : Option (List Nat) :=
  ((cs.splitOn '_').mapM b.group?).map List.flatten

/-- The natural number that digits in groups stand for. -/
def Base.natural? (b : Base) (cs : List Char) : Option Nat := do
  let ds ← b.digits? cs
  if b.admits ds.length then some (b.value ds) else none

/-- The text after the mark of the base, `0x` and perhaps one underscore. -/
def Base.afterMark (b : Base) : List Char → List Char
  | '0' :: m :: rest =>
    if b = .sixteen ∧ (m = 'x' ∨ m = 'X') then
      match rest with
      | '_' :: digits => digits
      | digits => digits
    else '0' :: m :: rest
  | cs => cs

/-- The integer that a text without blanks around it stands for. -/
def Base.signed? (b : Base) : List Char → Option Int
  | '-' :: cs => (b.natural? (b.afterMark cs)).map fun n => -(n : Int)
  | '+' :: cs => (b.natural? (b.afterMark cs)).map fun n => (n : Int)
  | cs => (b.natural? (b.afterMark cs)).map fun n => (n : Int)

/-- The integer that a text stands for in a base. -/
def integer? (b : Base) (text : List Char) : Option Int :=
  b.signed? (trimBlanks (text.map plainChar))

end Chip8.Text
