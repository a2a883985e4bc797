/-!
# Keys

The sixteen keys, named by hexadecimal digits.
-/

namespace Chip8

/-- A key. -/
abbrev Key := Fin 16

namespace Key

/-- The keys, ascending. -/
def all : List Key := List.finRange 16

theorem lt (k : Key) : k.val < 16 := k.isLt

theorem mem_all (k : Key) : k ∈ all := List.mem_finRange k

/-- A row of sixteen values, one of them replaced, as it is read by key. -/
theorem get_set {α : Type} (row : Vector α 16) (n : Nat) (a : α) (h : n < 16) (k : Key) :
    (row.set n a h).get k = if n = k.val then a else row.get k :=
  Vector.getElem_set h k.isLt

end Key

end Chip8
