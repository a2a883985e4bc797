import Chip8.Interpreter.Query
import Chip8.Proofs.Machine.Blocks

/-!
# Block reads for any address and any count

The check before a block read looks at the first and the last address; the cut that follows takes a
negative end from the end of the bank.  So a read of a negative number of bytes is not always empty:
where its end lies below zero it runs on, to as many bytes before the end of the bank
(`Memory.readBlock_eq_ite`).  Every other read is refused or returns exactly the bytes asked for
(`Memory.readBlock_outcomes`).
-/

namespace Chip8

namespace Memory

/-! ### Cuts -/

theorem cutPosition_le (n : Nat) (i : Int) : cutPosition n i ≤ n := by
  unfold cutPosition
  split <;> omega

/-- A cut has the bytes between the positions of its ends. -/
theorem cut_eq_range (m : Memory) (loc stop : Int) :
    m.cut loc stop =
      (List.range (cutPosition m.size stop - cutPosition m.size loc)).map fun (k : Nat) =>
        m.byteAt (cutPosition m.size loc + k : Nat) := by
  have hstop : cutPosition m.size stop ≤ m.bytes.size := cutPosition_le m.size stop
  apply List.ext_getElem
  · rw [cut, Array.length_toList, Array.size_extract, List.length_map, List.length_range]
    omega
  · intro k hk hk'
    have hlt : k < cutPosition m.size stop - cutPosition m.size loc := by simpa using hk'
    have hin : cutPosition m.size loc + k < m.bytes.size := by omega
    have hloc : ((cutPosition m.size loc : Int) + k).toNat = cutPosition m.size loc + k := by omega
    simp [cut, byteAt, hloc, Array.getD, hin]

/-- The number of bytes that a block read returns from a bank of a size, if it is not refused. -/
def readLength (size : Nat) (loc count : Int) : Nat :=
  if loc + count < 0 then (size + count).toNat else count.toNat

section

variable (m : Memory) {loc count : Int}

/-- The cut of a block that the check lets pass. -/
theorem cut_of_le (h₀ : 0 ≤ loc) (h : loc + count ≤ m.size) :
    m.cut loc (loc + count) =
      (List.range (readLength m.size loc count)).map fun (k : Nat) => m.byteAt (loc + k) := by
  have hlength : cutPosition m.size (loc + count) - cutPosition m.size loc =
      readLength m.size loc count := by
    unfold cutPosition readLength
    split <;> split <;> omega
  rw [cut_eq_range, hlength]
  apply List.map_congr_left
  intro k hk
  have hlt : k < readLength m.size loc count := List.mem_range.1 hk
  -- only a cut of no bytes starts past the end of the bank
  have hstart : (cutPosition m.size loc : Int) = loc := by
    unfold readLength at hlt
    unfold cutPosition
    split at hlt <;> split <;> omega
  rw [Int.natCast_add, hstart]

end

/-! ### Block reads -/

theorem readBlock_eq_ite (m : Memory) (loc count : Int) :
    m.readBlock loc count =
      if loc < 0 ∨ m.size < loc + count then
        .error (.outOfRange loc (loc + count - 1) m.top)
      else .ok ((List.range (readLength m.size loc count)).map fun (k : Nat) => m.byteAt (loc + k)) := by
  split
  · next h =>
    rw [readBlock, check, if_pos (by rw [top]; omega)]
    rfl
  · next h =>
    rw [readBlock_of_le m (by omega) (by omega), cut_of_le m (by omega) (by omega)]

/-- Whether a block read is refused, or returns the bytes asked for and no others: one for each number
below `count`, which are none if `count` is negative. -/
def AnswersAsAsked (m : Memory) (loc count : Int) : Prop :=
  (∃ first last, m.readBlock loc count = .error (.outOfRange first last m.top)) ∨
    m.readBlock loc count = .ok ((List.range count.toNat).map fun (k : Nat) => m.byteAt (loc + k))

theorem answersAsAsked_iff (m : Memory) (loc count : Int) :
    m.AnswersAsAsked loc count ↔ ¬(0 ≤ loc ∧ loc + count < 0 ∧ 0 < m.size + count) := by
  unfold AnswersAsAsked
  rw [readBlock_eq_ite]
  by_cases hrefused : loc < 0 ∨ m.size < loc + count
  · rw [if_pos hrefused]
    have hinside : ¬(0 ≤ loc ∧ loc + count < 0 ∧ 0 < m.size + count) := by omega
    exact iff_of_true (Or.inl ⟨_, _, rfl⟩) hinside
  · rw [if_neg hrefused]
    simp only [reduceCtorEq, exists_false, false_or, Except.ok.injEq]
    constructor
    · intro hbytes
      have hlength := congrArg List.length hbytes
      rw [List.length_map, List.length_map, List.length_range, List.length_range, readLength] at hlength
      split at hlength <;> omega
    · intro hnot
      have hlength : readLength m.size loc count = count.toNat := by
        unfold readLength
        split <;> omega
      rw [hlength]

/-- A block read is refused exactly if the block starts below zero or ends past the bank, and it does as
asked unless the end of the block lies below zero and that many bytes are more than none. -/
theorem readBlock_outcomes {ρ : Type} (m : Memory) (loc count : Int) :
    (m.readBlock loc count =
      if loc < 0 ∨ m.size < loc + count then
        .error (.outOfRange loc (loc + count - 1) m.top)
      else .ok ((List.range (if loc + count < 0 then (m.size + count).toNat else count.toNat)).map
        fun (k : Nat) => m.byteAt (loc + k))) ∧
      (m.AnswersAsAsked loc count ↔ ¬(0 ≤ loc ∧ loc + count < 0 ∧ 0 < m.size + count)) ∧
      ∀ s : Interpreter ρ, s.answer (.memory loc count) =
        (s.machine.memory.readBlock loc count).map Answer.bytes := by
  refine ⟨m.readBlock_eq_ite loc count, m.answersAsAsked_iff loc count, fun s => ?_⟩
  rw [Interpreter.answer]
  cases s.machine.memory.readBlock loc count <;> rfl

/-- A read of fewer than no bytes returns all but the last byte of a bank of four. -/
theorem readBlock_of_negative_count :
    let m : Memory := ⟨#[10, 11, 12, 13]⟩
    m.readBlock 0 (-1) = .ok [10, 11, 12] ∧ ¬m.AnswersAsAsked 0 (-1) := by
  intro m
  have hread : m.readBlock 0 (-1) = .ok [10, 11, 12] := rfl
  refine ⟨hread, ?_⟩
  rintro (⟨first, last, hrefused⟩ | hnone)
  · exact nomatch hread.symm.trans hrefused
  · exact nomatch hread.symm.trans hnone

end Memory

end Chip8
