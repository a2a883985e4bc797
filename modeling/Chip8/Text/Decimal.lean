import Chip8.Text.Integer

/-!
# Decimal numbers

A decimal number is read from digits with a point, an exponent, or both, and written with a point while
its first digit stands between the fourth place after the point and the sixteenth before it, else with
an exponent.  To compute with, a number stands for the nearest one of 53 binary digits, so that the whole
part of a large number is not always what its digits say.
-/

namespace Chip8.Text

/-- The number `digits / 10 ^ places`, or its negative. -/
structure Decimal where
  negative : Bool
  digits : Nat
  places : Nat
deriving DecidableEq, Inhabited

namespace Decimal

/-! ### Reading and writing -/

/-- The number `n / 10 ^ places`, where the places may be negative. -/
def ofScaled (negative : Bool) (n : Nat) (places : Int) : Decimal :=
  ⟨negative, n * Nat.pow 10 (-places).toNat, places.toNat⟩

/-- Whether a character stands before an exponent. -/
def marksExponent (c : Char) : Bool := c == 'e' || c == 'E'

/-- Reads digits with a point, an exponent, or both. -/
def ofText? (cs : List Char) : Option Decimal := do
  let mantissa := cs.takeWhile (!marksExponent ·)
  let fraction := (mantissa.dropWhile (· != '.')).drop 1
  let n ← integer? .ten (mantissa.filter (· != '.'))
  let exponent ← match (cs.dropWhile (!marksExponent ·)).drop 1 with
    | [] => some 0
    | text => integer? .ten text
  return ofScaled (cs.head? == some '-') n.natAbs ((fraction.length : Int) - exponent)

/-- The number with its last digits dropped while they are zeros after the point. -/
def trimZeros (digits places : Nat) : Nat → Nat × Nat
  | 0 => (digits, places)
  | fuel + 1 =>
    if places ≠ 0 ∧ digits % 10 = 0 then trimZeros (digits / 10) (places - 1) fuel
    else (digits, places)

/-- The digits of a number, with a point after the first `point` of them. -/
def positional (ds : List Char) (point : Int) : List Char :=
  if point ≤ 0 then '0' :: '.' :: (List.replicate (-point).toNat '0' ++ ds)
  else if (ds.length : Int) ≤ point then ds ++ ['.', '0']
  else ds.take point.toNat ++ '.' :: ds.drop point.toNat

/-- The digits of a number, with a point after the first and the exponent that belongs to it. -/
def scientific (ds : List Char) (exponent : Int) : List Char :=
  let fraction := ((ds.drop 1).reverse.dropWhile (· == '0')).reverse
  ds.take 1 ++ (if fraction.isEmpty then [] else '.' :: fraction)
    ++ 'e' :: (if exponent < 0 then '-' else '+')
    :: (Nat.toDigits 10 exponent.natAbs).leftpad 2 '0'

/-- The text of a number without its sign. -/
def magnitudeText (d : Decimal) : List Char :=
  let (digits, places) := trimZeros d.digits d.places d.places
  let ds := Nat.toDigits 10 digits
  let point : Int := (ds.length : Int) - places
  if digits = 0 ∨ -4 < point ∧ point ≤ 16 then positional ds point else scientific ds (point - 1)

/-- The text of a number. -/
def toText (d : Decimal) : String :=
  String.ofList ((if d.negative then ['-'] else []) ++ d.magnitudeText)

/-! ### The nearest binary number -/

/-- The quotient rounded to the nearest natural number, a half to the even one. -/
def roundedQuotient (a b : Nat) : Nat :=
  let q := a / b
  if 2 * (a % b) < b ∨ (2 * (a % b) = b ∧ q % 2 = 0) then q else q + 1

/-- Whether `a / b` has no more than 53 binary digits before the point when it is counted in units of
`2 ^ exponent`. -/
def fits (a b : Nat) (exponent : Int) : Bool :=
  decide (a * Nat.pow 2 (-exponent).toNat < b * Nat.pow 2 (exponent.toNat + 53))

/-- The exponent of the last of the 53 binary digits that `a / b` is rounded to, or of the last place
that there is. -/
def lastPlace (a b : Nat) : Int :=
  let exponent : Int := (a.log2 : Int) - b.log2 - 53
  max (-1074) (if fits a b exponent then exponent else exponent + 1)

/-- The nearest number of 53 binary digits without its sign, as `n` and `e` for `n * 2 ^ e`. -/
def nearest (d : Decimal) : Nat × Int :=
  let unit := Nat.pow 10 d.places
  let e := lastPlace d.digits unit
  (roundedQuotient (d.digits * Nat.pow 2 (-e).toNat) (unit * Nat.pow 2 e.toNat), e)

/-- The whole part of the nearest number of 53 binary digits. -/
def whole (d : Decimal) : Int :=
  let (n, e) := d.nearest
  let whole : Int := n * Nat.pow 2 e.toNat / Nat.pow 2 (-e).toNat
  if d.negative then -whole else whole

end Decimal

end Chip8.Text
