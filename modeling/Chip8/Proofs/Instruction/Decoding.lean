import Chip8.Instruction.Basic

/-!
# Reading words

Which words are read as an instruction, field by field (`Opcode.Reads`), and which are none
(`Opcode.IsIllegal`).  The two lists are complete: `ofOpcode?_eq_some_iff`, `ofOpcode?_eq_none_iff`.
-/

namespace Chip8

namespace Opcode

/-- The words that are no instruction, by family and low byte or nibble. -/
def IsIllegal (c : Opcode) : Prop :=
  (c.family.val = 0x0 ∧ c.byte.toNat ∉ [0xE0, 0xEE]) ∨
  (c.family.val = 0x8 ∧ c.nibble.val ∈ [0x8, 0x9, 0xA, 0xB, 0xC, 0xD, 0xF]) ∨
  (c.family.val = 0xE ∧ c.byte.toNat ∉ [0x9E, 0xA1]) ∨
  (c.family.val = 0xF ∧
    c.byte.toNat ∉ [0x07, 0x0A, 0x15, 0x18, 0x1E, 0x29, 0x33, 0x55, 0x65])

/-- The low nibble of an operation of family 8. -/
def aluNibble : Alu → Nat
  | .copy => 0x0
  | .or => 0x1
  | .and => 0x2
  | .xor => 0x3
  | .add => 0x4
  | .sub => 0x5
  | .shiftRight => 0x6
  | .subFrom => 0x7
  | .shiftLeft => 0xE

/-- Whether a word of family 0, E or F has a low byte. -/
def HasByte (c : Opcode) (family byte : Nat) : Prop := c.family.val = family ∧ c.byte.toNat = byte

/-- Whether a word stands for an instruction. -/
def Reads (c : Opcode) : Instruction → Prop
  | .clearFrame => c.HasByte 0x0 0xE0
  | .ret => c.HasByte 0x0 0xEE
  | .jump target => c.family.val = 0x1 ∧ target = c.address
  | .call target => c.family.val = 0x2 ∧ target = c.address
  | .skipIfByte x value => c.family.val = 0x3 ∧ x = c.x ∧ value = c.byte
  | .skipUnlessByte x value => c.family.val = 0x4 ∧ x = c.x ∧ value = c.byte
  | .skipIfSame x y => c.family.val = 0x5 ∧ x = c.x ∧ y = c.y
  | .setByte x value => c.family.val = 0x6 ∧ x = c.x ∧ value = c.byte
  | .addByte x value => c.family.val = 0x7 ∧ x = c.x ∧ value = c.byte
  | .alu op x y => c.family.val = 0x8 ∧ c.nibble.val = aluNibble op ∧ x = c.x ∧ y = c.y
  | .skipUnlessSame x y => c.family.val = 0x9 ∧ x = c.x ∧ y = c.y
  | .setIndex target => c.family.val = 0xA ∧ target = c.address
  | .jumpPlus target => c.family.val = 0xB ∧ target = c.address
  | .random x mask => c.family.val = 0xC ∧ x = c.x ∧ mask = c.byte
  | .draw x y rows => c.family.val = 0xD ∧ x = c.x ∧ y = c.y ∧ rows = c.nibble
  | .skipIfKey x => c.HasByte 0xE 0x9E ∧ x = c.x
  | .skipUnlessKey x => c.HasByte 0xE 0xA1 ∧ x = c.x
  | .getDelay x => c.HasByte 0xF 0x07 ∧ x = c.x
  | .awaitKey x => c.HasByte 0xF 0x0A ∧ x = c.x
  | .setDelay x => c.HasByte 0xF 0x15 ∧ x = c.x
  | .setSound x => c.HasByte 0xF 0x18 ∧ x = c.x
  | .addIndex x => c.HasByte 0xF 0x1E ∧ x = c.x
  | .glyph x => c.HasByte 0xF 0x29 ∧ x = c.x
  | .storeDigits x => c.HasByte 0xF 0x33 ∧ x = c.x
  | .store x => c.HasByte 0xF 0x55 ∧ x = c.x
  | .load x => c.HasByte 0xF 0x65 ∧ x = c.x

end Opcode

namespace Instruction

open Opcode

theorem ofNibble?_eq_some_iff {n : Nat} {op : Alu} :
    Alu.ofNibble? n = some op ↔ n = aluNibble op := by
  constructor
  · intro h
    unfold Alu.ofNibble? at h
    split at h <;> cases h <;> rfl
  · rintro rfl
    cases op <;> rfl

theorem ofNibble?_eq_none_iff {n : Fin 16} :
    Alu.ofNibble? n.val = none ↔ n.val ∈ [0x8, 0x9, 0xA, 0xB, 0xC, 0xD, 0xF] := by
  revert n
  decide

theorem reads_of_ofOpcode? {c : Opcode} {i : Instruction} (h : ofOpcode? c = some i) :
    c.Reads i := by
  have hlt := c.family.isLt
  unfold ofOpcode? at h
  split at h
  case h_1 hf =>
    unfold ofSystemByte? at h
    split at h <;> cases h <;> exact ⟨hf, ‹_›⟩
  case h_9 hf =>
    obtain ⟨op, hop, rfl⟩ := Option.map_eq_some_iff.1 h
    exact ⟨hf, ofNibble?_eq_some_iff.1 hop, rfl, rfl⟩
  case h_15 hf =>
    unfold ofKeyByte? at h
    split at h <;> cases h <;> exact ⟨⟨hf, ‹_›⟩, rfl⟩
  case h_16 =>
    have hf : c.family.val = 0xF := by grind
    unfold ofMiscByte? at h
    split at h <;> cases h <;> exact ⟨⟨hf, ‹_›⟩, rfl⟩
  all_goals
    cases h
    simp only [Reads, and_self, and_true]
    assumption

theorem ofOpcode?_of_reads {c : Opcode} {i : Instruction} (h : c.Reads i) :
    ofOpcode? c = some i := by
  cases i with
  | alu op x y =>
    obtain ⟨hf, hn, rfl, rfl⟩ := h
    simp only [ofOpcode?, hf, ofNibble?_eq_some_iff.2 hn, Option.map_some]
  | _ => simp_all only [Reads, HasByte, ofOpcode?, ofSystemByte?, ofKeyByte?, ofMiscByte?]

theorem reads_unique {c : Opcode} {i j : Instruction} (hi : c.Reads i) (hj : c.Reads j) : i = j :=
  Option.some.inj ((ofOpcode?_of_reads hi).symm.trans (ofOpcode?_of_reads hj))

theorem ofOpcode?_eq_some_iff {c : Opcode} {i : Instruction} :
    ofOpcode? c = some i ↔ c.Reads i :=
  ⟨reads_of_ofOpcode?, ofOpcode?_of_reads⟩

theorem ofOpcode?_eq_call_iff {c : Opcode} :
    (∃ target, ofOpcode? c = some (call target)) ↔ c.family.val = 2 := by
  simp only [ofOpcode?_eq_some_iff, Reads]
  exact ⟨fun ⟨_, h, _⟩ => h, fun h => ⟨c.address, h, rfl⟩⟩

theorem ofOpcode?_eq_ret_iff {c : Opcode} : ofOpcode? c = some ret ↔ c.HasByte 0x0 0xEE :=
  ofOpcode?_eq_some_iff

theorem ofOpcode?_eq_draw_iff {c : Opcode} :
    ofOpcode? c = some (draw c.x c.y c.nibble) ↔ c.family.val = 0xD := by
  simp only [ofOpcode?_eq_some_iff, Reads, and_true]

theorem ofOpcode?_eq_none_iff {c : Opcode} : ofOpcode? c = none ↔ c.IsIllegal := by
  have hlt := c.family.isLt
  unfold ofOpcode? IsIllegal
  split
  case h_1 hf =>
    unfold ofSystemByte?
    split <;> simp_all
  case h_9 hf =>
    rw [Option.map_eq_none_iff, ofNibble?_eq_none_iff]
    simp [hf]
  case h_15 hf =>
    unfold ofKeyByte?
    split <;> simp_all
  case h_16 =>
    have hf : c.family.val = 0xF := by grind
    unfold ofMiscByte?
    split <;> simp_all
  all_goals simp_all

end Instruction

end Chip8
