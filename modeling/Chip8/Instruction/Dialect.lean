/-!
# Dialects

CHIP-8 interpreters differ in six points.  A dialect says for each of them which way it goes; the
four named dialects are those of the common interpreters.
-/

namespace Chip8

/-- A point in which interpreters differ. -/
inductive Switch
  /-- Shifts act on the first register in place, instead of on a copy of the second. -/
  | shift
  /-- Storing and loading registers moves the index register past them. -/
  | load
  /-- Sprites wrap around the edges of the frame, instead of being clipped. -/
  | wrap
  /-- The bitwise operations reset the flag register. -/
  | logic
  /-- The jump with an offset adds the register named by its own second nibble, instead of `V0`. -/
  | jump
  /-- Adding to the index register sets the flag register when it leaves the address space. -/
  | indexOverflow
deriving DecidableEq, Inhabited

namespace Switch

/-- The six switches, in the order in which options are looked at. -/
def all : List Switch := [shift, load, wrap, logic, jump, indexOverflow]

theorem mem_all (s : Switch) : s ∈ all := by cases s <;> decide

/-- The word for a switch in the names of options. -/
def label : Switch → String
  | shift => "shift"
  | load => "load"
  | wrap => "wrap"
  | logic => "logic"
  | jump => "jump"
  | indexOverflow => "index_overflow"

/-- The switch of a word. -/
def ofLabel? (word : String) : Option Switch := all.find? (·.label == word)

end Switch

/-- A choice for each of the six points. -/
abbrev Dialect := Switch → Bool

namespace Dialect

/-- The dialect with one switch put to a position. -/
def set (d : Dialect) (s : Switch) (on : Bool) : Dialect := fun t => if t = s then on else d t

@[simp] theorem set_self (d : Dialect) (s : Switch) (on : Bool) : d.set s on s = on := by simp [set]

theorem set_of_ne (d : Dialect) {s t : Switch} (on : Bool) (h : t ≠ s) : d.set s on t = d t := by
  simp [set, h]

/-- The dialect with the given switches put to new positions. -/
def override (d : Dialect) (choice : Switch → Option Bool) : Dialect := fun s =>
  (choice s).getD (d s)

/-- The dialect that programs of today expect. -/
def modern : Dialect
  | .shift => true
  | _ => false

/-- The dialect of the COSMAC VIP. -/
def cosmac : Dialect
  | .load => true
  | .logic => true
  | _ => false

/-- The dialect of Super-CHIP on the HP48. -/
def superChip : Dialect
  | .shift => true
  | .jump => true
  | _ => false

/-- The dialect of XO-CHIP, as in Octo. -/
def xoChip : Dialect
  | .load => true
  | .wrap => true
  | _ => false

/-- The dialects by name. -/
def named : List (String × Dialect) :=
  [("modern", modern), ("chip8", cosmac), ("schip", superChip), ("xochip", xoChip)]

/-- The dialect of a name. -/
def ofName? (name : String) : Option Dialect := named.lookup name

end Dialect

end Chip8
