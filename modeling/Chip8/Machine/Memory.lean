import Chip8.Machine.Fault

/-!
# Memory

A flat bank of bytes.  Every access is checked against the bank before a byte moves, so a refused
write leaves the bank as it was: operations answer either a new bank or the cause of refusal.
Addresses and sizes are any integers.
-/

namespace Chip8

/-- A bank of bytes. -/
structure Memory where
  bytes : Array UInt8
deriving DecidableEq, Inhabited

namespace Memory

/-- The bank of `n` zero bytes. -/
def zeros (n : Nat) : Memory := ⟨Array.replicate n 0⟩

/-- The number of bytes. -/
def size (m : Memory) : Nat := m.bytes.size

/-- The last address, `-1` in an empty bank. -/
def top (m : Memory) : Int := (m.size : Int) - 1

/-- A bank of zero bytes of any given size, which must fit a machine word and not be negative. -/
def ofSize (n : Int) : Except Fault Memory := do
  let n ← wordSize? n
  if n < 0 then throw .negativeSize else return zeros n.toNat

/-- Refuses a block of `count` bytes at `loc` that starts below zero or ends above the last
address. -/
def check (m : Memory) (loc count : Int) : Except Fault Unit :=
  if loc < 0 ∨ m.top < loc + count - 1 then .error (.outOfRange loc (loc + count - 1) m.top)
  else .ok ()

/-- The byte at an address of the bank. -/
def byteAt (m : Memory) (loc : Int) : UInt8 := m.bytes.getD loc.toNat 0

/-- The bank with one byte changed; nothing changes outside the bank. -/
def set (m : Memory) (n : Nat) (b : UInt8) : Memory := ⟨m.bytes.setIfInBounds n b⟩

/-- The bank with the bytes from `n` on replaced by `block`. -/
def setBlock (m : Memory) (n : Nat) : List UInt8 → Memory
  | [] => m
  | b :: block => (m.set n b).setBlock (n + 1) block

/-- Reads the byte at `loc`. -/
def read (m : Memory) (loc : Int) : Except Fault UInt8 := do
  m.check loc 1
  return m.byteAt loc

/-- The position in a sequence of `n` that an integer means as the end of a cut: a negative integer
counts from the end of the sequence. -/
def cutPosition (n : Nat) (i : Int) : Nat := if i < 0 then (n + i).toNat else min i.toNat n

/-- The bytes from `loc` up to, and without, `stop`. -/
def cut (m : Memory) (loc stop : Int) : List UInt8 :=
  (m.bytes.extract (cutPosition m.size loc) (cutPosition m.size stop)).toList

/-- Reads `count` bytes at `loc`. -/
def readBlock (m : Memory) (loc count : Int) : Except Fault (List UInt8) := do
  m.check loc count
  return m.cut loc (loc + count)

/-- The byte that an integer is, if it is one. -/
def byte? (value : Int) : Except Fault UInt8 :=
  if 0 ≤ value ∧ value < 256 then .ok (UInt8.ofNat value.toNat) else .error .notAByte

/-- Writes one byte at `loc`. -/
def write (m : Memory) (loc value : Int) : Except Fault Memory := do
  m.check loc 1
  let b ← byte? value
  return m.set loc.toNat b

/-- Writes a block at `loc`; an empty block goes anywhere. -/
def writeBlock (m : Memory) (loc : Int) (block : List UInt8) : Except Fault Memory :=
  if block.isEmpty then .ok m
  else do
    m.check loc block.length
    return m.setBlock loc.toNat block

/-- Clears `count` bytes at `loc`; a count that is not positive clears nothing, anywhere. -/
def zeroBlock (m : Memory) (loc count : Int) : Except Fault Memory :=
  if count ≤ 0 then .ok m
  else do
    m.check loc count
    return m.setBlock loc.toNat (List.replicate count.toNat 0)

/-- The bank of the same size with all bytes zero. -/
def clear (m : Memory) : Memory := zeros m.size

/-! ### Sizes and single bytes -/

@[simp] theorem size_zeros (n : Nat) : (zeros n).size = n := by simp [zeros, size]

@[simp] theorem size_clear (m : Memory) : m.clear.size = m.size := by simp [clear]

@[simp] theorem size_set (m : Memory) (n : Nat) (b : UInt8) : (m.set n b).size = m.size := by
  simp [set, size]

@[simp] theorem size_setBlock (m : Memory) (n : Nat) (block : List UInt8) :
    (m.setBlock n block).size = m.size := by
  induction block generalizing m n with
  | nil => rfl
  | cons b block ih => simp [setBlock, ih]

theorem byteAt_set (m : Memory) (n : Nat) (b : UInt8) (loc : Int) :
    (m.set n b).byteAt loc = if loc.toNat = n ∧ n < m.size then b else m.byteAt loc := by
  simp only [set, byteAt, size, Array.getD_eq_getD_getElem?, Array.getElem?_setIfInBounds]
  by_cases hl : n = loc.toNat
  · subst hl
    by_cases hn : loc.toNat < m.bytes.size <;> simp [hn]
  · simp [hl, Ne.symm hl]

theorem check_eq_ok_iff (m : Memory) (loc count : Int) :
    m.check loc count = .ok () ↔ 0 ≤ loc ∧ loc + count ≤ m.size := by
  unfold check top
  split <;> simp <;> omega

end Memory

end Chip8
