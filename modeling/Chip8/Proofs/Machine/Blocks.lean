import Chip8.Machine.Memory

/-!
# Memory by its bytes

A bank is its size and its bytes (`Memory.ext_byteAt`).  This file says which bytes a block write
changes (`byteAt_setBlock`), which bytes a cut has (`cut_eq_map`), and when reading and writing are
refused: a block that starts at zero or above is refused iff it runs past the end of the bank.
-/

namespace Chip8

namespace Memory

/-! ### Bytes -/

/-- Banks of one size with the same bytes are the same. -/
theorem ext_byteAt {m m' : Memory} (hs : m.size = m'.size)
    (hb : ∀ n : Nat, n < m.size → m.byteAt n = m'.byteAt n) : m = m' := by
  cases m with | mk a =>
  cases m' with | mk b =>
  congr 1
  apply Array.ext hs
  intro n h h'
  have := hb n h
  simpa [byteAt, Array.getD, h, h'] using this

@[simp] theorem byteAt_zeros (n : Nat) (loc : Int) : (zeros n).byteAt loc = 0 := by
  simp only [zeros, byteAt, Array.getD_eq_getD_getElem?, Array.getElem?_replicate]
  split <;> rfl

theorem exists_byteAt_of_mem {m : Memory} {b : UInt8} (h : b ∈ m.bytes) :
    ∃ loc : Int, m.byteAt loc = b := by
  obtain ⟨n, hn, rfl⟩ := Array.mem_iff_getElem.1 h
  exact ⟨n, by simp [byteAt, Array.getD, hn]⟩

theorem toList_bytes (m : Memory) :
    m.bytes.toList = (List.range m.size).map fun (k : Nat) => m.byteAt k := by
  apply List.ext_getElem
  · simp [size]
  · intro k hk hk'
    have hlt : k < m.bytes.size := by simpa using hk
    simp [byteAt, Array.getD, hlt]

/-- A block write changes the bytes under the block, as far as the bank goes, and no others. -/
theorem byteAt_setBlock (m : Memory) (n : Nat) (block : List UInt8) (loc : Int) :
    (m.setBlock n block).byteAt loc =
      if n ≤ loc.toNat ∧ loc.toNat < n + block.length ∧ loc.toNat < m.size then
        block.getD (loc.toNat - n) 0
      else m.byteAt loc := by
  induction block generalizing m n with
  | nil =>
    rw [if_neg (by simp only [List.length_nil]; omega)]
    rfl
  | cons b block ih =>
    rw [setBlock, ih, size_set, byteAt_set]
    by_cases hn : loc.toNat = n
    · -- the first byte of the block is written before the rest, which lies above it
      rw [if_neg (by omega)]
      by_cases hs : n < m.size
      · rw [if_pos ⟨hn, hs⟩, if_pos (by simp only [List.length_cons]; omega)]
        simp [hn]
      · rw [if_neg (by omega), if_neg (by omega)]
    · by_cases hin : n + 1 ≤ loc.toNat ∧ loc.toNat < n + 1 + block.length ∧ loc.toNat < m.size
      · have hk : loc.toNat - n = (loc.toNat - (n + 1)) + 1 := by omega
        rw [if_pos hin, if_pos (by simp only [List.length_cons]; omega), hk, List.getD_cons_succ]
      · rw [if_neg hin, if_neg (fun h => hn h.1),
          if_neg (by simp only [List.length_cons]; omega)]

/-- A byte outside a block write is as it was. -/
theorem byteAt_setBlock_of_outside (m : Memory) {n : Nat} {block : List UInt8} {loc : Int}
    (h : loc.toNat < n ∨ n + block.length ≤ loc.toNat) :
    (m.setBlock n block).byteAt loc = m.byteAt loc := by
  rw [byteAt_setBlock, if_neg (by omega)]

theorem byteAt_setBlock_replicate (m : Memory) (n k : Nat) (loc : Int) :
    (m.setBlock n (List.replicate k 0)).byteAt loc =
      if n ≤ loc.toNat ∧ loc.toNat < n + k ∧ loc.toNat < m.size then 0 else m.byteAt loc := by
  have hzero (j : Nat) : (List.replicate k (0 : UInt8)).getD j 0 = 0 := by
    rw [List.getD_eq_getElem?_getD, List.getElem?_replicate]
    split <;> rfl
  rw [byteAt_setBlock, List.length_replicate, hzero]

/-- A cut inside the bank has the bytes there in order. -/
theorem cut_eq_map (m : Memory) {loc : Int} {n : Nat} (h₀ : 0 ≤ loc) (h : loc + n ≤ m.size) :
    m.cut loc (loc + n) = (List.range n).map fun (k : Nat) => m.byteAt (loc + k) := by
  have hstart : cutPosition m.size loc = loc.toNat := by
    rw [cutPosition, if_neg (by omega)]
    omega
  have hstop : cutPosition m.size (loc + n) = loc.toNat + n := by
    rw [cutPosition, if_neg (by omega)]
    omega
  rw [size] at h
  rw [cut, hstart, hstop]
  apply List.ext_getElem
  · simp only [Array.length_toList, Array.size_extract, List.length_map, List.length_range]
    omega
  · intro k hk hk'
    have hlt : k < n := by simpa using hk'
    have hin : loc.toNat + k < m.bytes.size := by omega
    have hloc : (loc + k).toNat = loc.toNat + k := by omega
    simp [byteAt, hloc, Array.getD, hin]

/-! ### Refusals -/

variable (m : Memory) {loc count : Int}

theorem check_of_le (h₀ : 0 ≤ loc) (h : loc + count ≤ m.size) : m.check loc count = .ok () :=
  (check_eq_ok_iff m loc count).2 ⟨h₀, h⟩

theorem check_of_lt (h : m.size < loc + count) :
    m.check loc count = .error (.outOfRange loc (loc + count - 1) m.top) := by
  rw [check, if_pos (Or.inr (by rw [top]; omega))]

theorem read_of_lt (h₀ : 0 ≤ loc) (h : loc < m.size) : m.read loc = .ok (m.byteAt loc) := by
  rw [read, check_of_le m h₀ (by omega)]
  rfl

theorem read_of_le (h : m.size ≤ loc) : m.read loc = .error (.outOfRange loc loc m.top) := by
  rw [read, check_of_lt m (by omega), Int.add_sub_cancel]
  rfl

theorem readBlock_of_le (h₀ : 0 ≤ loc) (h : loc + count ≤ m.size) :
    m.readBlock loc count = .ok (m.cut loc (loc + count)) := by
  rw [readBlock, check_of_le m h₀ h]
  rfl

/-- Two neighbouring bytes read as a block. -/
theorem readBlock_pair (h₀ : 0 ≤ loc) (h : loc + 2 ≤ m.size) :
    m.readBlock loc 2 = .ok [m.byteAt loc, m.byteAt (loc + 1)] := by
  have hcut : m.cut loc (loc + 2) = _ := cut_eq_map m (n := 2) h₀ h
  rw [readBlock_of_le m h₀ h, hcut]
  simp [List.range_succ]

/-- A block of the whole bank. -/
theorem readBlock_all : m.readBlock 0 m.size = .ok m.bytes.toList := by
  have hcut := cut_eq_map m (n := m.size) (Int.le_refl 0) (by omega)
  rw [readBlock_of_le m (Int.le_refl 0) (by omega), hcut, toList_bytes]
  simp

theorem readBlock_of_lt (h : m.size < loc + count) :
    m.readBlock loc count = .error (.outOfRange loc (loc + count - 1) m.top) := by
  rw [readBlock, check_of_lt m h]
  rfl

theorem writeBlock_of_le {block : List UInt8} (h₀ : 0 ≤ loc) (h : loc + block.length ≤ m.size) :
    m.writeBlock loc block = .ok (m.setBlock loc.toNat block) := by
  rw [writeBlock]
  split
  · next he => rw [List.isEmpty_iff.1 he, setBlock]
  · rw [check_of_le m h₀ h]
    rfl

theorem writeBlock_of_lt {block : List UInt8} (hb : block ≠ []) (h : m.size < loc + block.length) :
    m.writeBlock loc block = .error (.outOfRange loc (loc + block.length - 1) m.top) := by
  rw [writeBlock, if_neg (by simpa using hb), check_of_lt m h]
  rfl

end Memory

end Chip8
