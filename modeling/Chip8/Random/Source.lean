/-!
# Number sources

The random instruction draws numbers from a source.  Any type will do whose values say what the next
number is and what is left; the number may be any integer.
-/

namespace Chip8

/-- A supply of numbers: drawing gives the next number and the supply left. -/
class NumberSource (ρ : Type) where
  draw : ρ → Int × ρ

/-- The number drawn after `n` others. -/
def NumberSource.nth {ρ : Type} [NumberSource ρ] (s : ρ) : Nat → Int
  | 0 => (draw s).1
  | n + 1 => nth (draw s).2 n

/-- A list of numbers, repeated for ever. -/
structure Cycle where
  values : List Int
  drawn : Nat
deriving Inhabited

instance : NumberSource Cycle where
  draw c := (c.values.getD (c.drawn % c.values.length) 0, { c with drawn := c.drawn + 1 })

instance {ρ ρ' : Type} [NumberSource ρ] [NumberSource ρ'] : NumberSource (ρ ⊕ ρ') where
  draw
    | .inl s => ((NumberSource.draw s).1, .inl (NumberSource.draw s).2)
    | .inr s => ((NumberSource.draw s).1, .inr (NumberSource.draw s).2)

end Chip8
