import Chip8.Random.Digest
import Chip8.Random.Twister
import Chip8.Text.Decimal

/-!
# Seeds

What is no integer can be a seed as well: a decimal number by the residue of the nearest binary number,
and a text by its bytes with their digest behind them.
-/

namespace Chip8

open Text

/-- The prime that residues are taken by. -/
def residueModulus : Nat := 2305843009213693951

/-- The residue of the nearest number of 53 binary digits without its sign.  The modulus is one less than
a power of two, so exponents count by 61. -/
def Text.Decimal.residue (d : Decimal) : Nat :=
  let (n, e) := d.nearest
  n * Nat.pow 2 (e % 61).toNat % residueModulus

namespace Twister

/-- The generator seeded by a decimal number.  The residue of a negative one counts from 2 to the 64th
down, where 1 is passed over. -/
def ofDecimal (d : Decimal) : Twister :=
  let r := d.residue
  ofSeed (if d.negative ∧ r ≠ 0 then 18446744073709551616 - (if r = 1 then 2 else r) else r)

/-- The generator seeded by a text. -/
def ofText (s : String) : Twister :=
  let bytes := s.toUTF8.toList
  ofSeed (Digest.valueOf (bytes ++ Digest.sha512 bytes))

end Twister

end Chip8
