/-!
# Blanks

The characters that may stand around a number.  Plain text knows six of them; text with a character
outside ASCII also knows the spaces of Unicode.
-/

namespace Chip8.Text

/-- The six blanks of plain text: space, tab, line feed, vertical tab, form feed, carriage return. -/
def isPlainBlank (c : Char) : Bool := c == ' ' || (decide (9 ≤ c.toNat) && decide (c.toNat ≤ 13))

/-- The blanks outside ASCII (Unicode 14). -/
def wideBlanks : List Nat :=
  [0x85, 0xa0, 0x1680, 0x2000, 0x2001, 0x2002, 0x2003, 0x2004, 0x2005, 0x2006, 0x2007, 0x2008,
    0x2009, 0x200a, 0x2028, 0x2029, 0x202f, 0x205f, 0x3000]

/-- Whether a character is a blank outside ASCII. -/
def isWideBlank (c : Char) : Bool := wideBlanks.contains c.toNat

/-- The text without the blanks at its two ends. -/
def trimBlanks (cs : List Char) : List Char :=
  ((cs.dropWhile isPlainBlank).reverse.dropWhile isPlainBlank).reverse

end Chip8.Text
