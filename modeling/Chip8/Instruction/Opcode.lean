/-!
# Instruction words

A word is sixteen bits, and every pattern is a word.  Its fields overlap: the family is the top
nibble, `x` and `y` name registers, and the low nibble, byte and twelve bits are constants.
-/

namespace Chip8

/-- The number of one of the sixteen byte registers. -/
abbrev Register := Fin 16

/-- The first register, `V0`. -/
def Register.first : Register := 0

/-- The last register, `VF`, which holds flags. -/
def Register.flag : Register := 15

theorem Register.lt (r : Register) : r.val < 16 := r.isLt

/-- An integer from 0 to 15 names a register, or a key. -/
theorem toNat_lt_sixteen {n : Int} (h : 0 ≤ n ∧ n < 16) : n.toNat < 16 := by omega

/-- A constant address, twelve bits wide. -/
abbrev Location := Fin 4096

/-- A raw sixteen bit instruction word. -/
structure Opcode where
  word : UInt16
deriving DecidableEq, Inhabited

namespace Opcode

/-- The word holding the low sixteen bits of `n`. -/
def ofInt (n : Int) : Opcode := ⟨UInt16.ofInt n⟩

/-- The number written by `bytes`, most significant byte first. -/
def valueOfBytes (bytes : List UInt8) : Nat := bytes.foldl (fun n b => 256 * n + b.toNat) 0

/-- The word written by `bytes`, most significant byte first; only the last two count. -/
def ofBytes (bytes : List UInt8) : Opcode := ⟨UInt16.ofNat (valueOfBytes bytes)⟩

/-- The word as a number. -/
def full (c : Opcode) : Nat := c.word.toNat

/-- The top nibble, which selects the family of instructions. -/
def family (c : Opcode) : Fin 16 := ⟨c.full / 4096 % 16, Nat.mod_lt _ (by decide)⟩

/-- The second nibble, a register. -/
def x (c : Opcode) : Register := ⟨c.full / 256 % 16, Nat.mod_lt _ (by decide)⟩

/-- The third nibble, a register. -/
def y (c : Opcode) : Register := ⟨c.full / 16 % 16, Nat.mod_lt _ (by decide)⟩

/-- The low nibble. -/
def nibble (c : Opcode) : Fin 16 := ⟨c.full % 16, Nat.mod_lt _ (by decide)⟩

/-- The low byte. -/
def byte (c : Opcode) : UInt8 := UInt8.ofNat (c.full % 256)

/-- The low twelve bits. -/
def address (c : Opcode) : Location := ⟨c.full % 4096, Nat.mod_lt _ (by decide)⟩

theorem valueOfBytes_pair (a b : UInt8) : valueOfBytes [a, b] = 256 * a.toNat + b.toNat := by
  simp [valueOfBytes]

/-- Two bytes make the word whose high byte comes first. -/
theorem full_ofBytes_pair (a b : UInt8) : (ofBytes [a, b]).full = 256 * a.toNat + b.toNat := by
  have ha := a.toNat_lt
  have hb := b.toNat_lt
  have h : 256 * a.toNat + b.toNat < 65536 := by omega
  rw [full, ofBytes, valueOfBytes_pair, UInt16.toNat_ofNat_of_lt' h]

end Opcode

end Chip8
