import Mathlib.Data.List.Nodup
import Mathlib.Tactic.IntervalCases
import Chip8.Instruction.Mnemonic
import Chip8.Proofs.Instruction.Decoding
import Chip8.Proofs.Text.HexDigits

/-!
# Listings and decoding

The templates of mnemonics and the tables of instructions are two readings of the same words.  They
leave out the same words (`disassemble_eq_unknown_iff`), and words with the same text are the same
instruction (`ofOpcode?_eq_of_disassemble_eq`).  The reason for the latter is that texts of different
templates differ already in what is no hexadecimal digit (`Template.skeleton`), and that a template
shows every field that its instruction uses (`Template.shows_operands`).
-/

namespace Chip8

open Text

theorem Field.value_lt (f : Field) (c : Opcode) : f.value c < Nat.pow 16 f.digits := by
  cases f with
  | x => exact c.x.isLt
  | y => exact c.y.isLt
  | nibble => exact c.nibble.isLt
  | byte => exact c.byte.toNat_lt
  | address => exact c.address.isLt

theorem Field.digits_pos (f : Field) : 0 < f.digits := by
  cases f <;> decide

namespace Template

/-! ### Texts of one template -/

/-- The characters of a template's texts, with all digits masked. -/
def skeleton : Template → List Char
  | [] => []
  | .text s :: t => s.toList.map mask ++ skeleton t
  | .field f :: t => List.replicate f.digits '#' ++ skeleton t

theorem map_mask_fill (c : Opcode) (t : Template) : (t.fill c).toList.map mask = t.skeleton := by
  induction t with
  | nil => rfl
  | cons p t ih =>
    cases p with
    | text s => simp only [fill, skeleton, String.toList_append, List.map_append, ih]
    | field f =>
      simp only [fill, skeleton, hex, String.toList_append, String.toList_ofList, List.map_append, ih,
        map_mask_hexChars f.digits_pos (f.value_lt c)]

/-- A text of a template says the values of all its fields. -/
theorem value_eq_of_fill_eq {t : Template} {c c' : Opcode} (h : t.fill c = t.fill c') {f : Field}
    (hf : .field f ∈ t) : f.value c = f.value c' := by
  replace h : (t.fill c).toList = (t.fill c').toList := congrArg String.toList h
  induction t with
  | nil => cases hf
  | cons p t ih =>
    cases p with
    | text s =>
      simp only [fill, String.toList_append] at h
      exact ih (List.mem_of_ne_of_mem (by simp) hf) (List.append_cancel_left h)
    | field g =>
      simp only [fill, hex, String.toList_append, String.toList_ofList] at h
      have hlen : (hexChars g.digits (g.value c)).length = (hexChars g.digits (g.value c')).length := by
        rw [length_hexChars g.digits_pos (g.value_lt c), length_hexChars g.digits_pos (g.value_lt c')]
      obtain ⟨hdigits, hrest⟩ := List.append_inj h hlen
      rcases List.mem_cons.1 hf with hfg | hf
      · cases hfg
        exact hexChars_injective _ hdigits
      · exact ih hf hrest

/-! ### The templates as one table -/

/-- What a word must have to be listed by a template: a top nibble, and in some families a value of the
field that selects. -/
abbrev Key := Nat × Option (Field × Nat)

/-- Whether a word has what a key says. -/
def Key.Matches (k : Key) (c : Opcode) : Prop :=
  c.family.val = k.1 ∧ ∀ f n, k.2 = some (f, n) → f.value c = n

/-- All templates with their keys. -/
def rows : List (Key × Template) :=
  ofFamily.map (fun (family, t) => ((family, none), t)) ++
    bySelector.flatMap fun (family, selector, templates) =>
      templates.map fun (n, t) => ((family, some (selector, n)), t)

theorem mem_of_lookup {α : Type} {n : Nat} {a : α} {table : List (Nat × α)}
    (h : table.lookup n = some a) : (n, a) ∈ table := by
  obtain ⟨front, back, rfl, -⟩ := List.lookup_eq_some_iff.1 h
  simp

theorem lookup_eq_none_iff {α : Type} {n : Nat} {table : List (Nat × α)} :
    table.lookup n = none ↔ n ∉ table.map Prod.fst := by
  rw [List.lookup_eq_none_iff]
  simp only [bne_iff_ne, List.mem_map, not_exists, not_and]
  exact forall₂_congr fun p _ => ne_comm

theorem exists_row {c : Opcode} {t : Template} (h : c.template? = some t) :
    ∃ k : Key, (k, t) ∈ rows ∧ k.Matches c := by
  unfold Opcode.template? at h
  split at h
  · next u hu =>
    cases h
    refine ⟨(c.family.val, none), ?_, rfl, by simp⟩
    exact List.mem_append_left _ (List.mem_map.2 ⟨_, mem_of_lookup hu, rfl⟩)
  · obtain ⟨⟨selector, templates⟩, hs, ht⟩ := Option.bind_eq_some_iff.1 h
    refine ⟨(c.family.val, some (selector, selector.value c)), ?_, rfl, ?_⟩
    · apply List.mem_append_right
      refine List.mem_flatMap.2 ⟨_, mem_of_lookup hs, ?_⟩
      exact List.mem_map.2 ⟨_, mem_of_lookup ht, rfl⟩
    · rintro f n hfn
      cases hfn
      rfl

/-- No two templates have texts that differ in digits only. -/
theorem nodup_skeletons : (rows.map fun row => row.2.skeleton).Nodup := by decide

theorem row_eq_of_skeleton_eq {row row' : Key × Template} (h : row ∈ rows) (h' : row' ∈ rows)
    (hs : row.2.skeleton = row'.2.skeleton) : row = row' :=
  List.inj_on_of_nodup_map nodup_skeletons h h' hs

/-- The text of no template differs in digits only from that of a word without one. -/
theorem skeleton_ne_unknown {row : Key × Template} (h : row ∈ rows) :
    row.2.skeleton ≠ unknownMnemonic.toList.map mask := by
  revert row
  decide

/-! ### What an instruction reads -/

/-- The fields that the instructions of a family use. -/
def operands : Nat → List Field
  | 0x0 => []
  | 0x1 | 0x2 | 0xA | 0xB => [.address]
  | 0x3 | 0x4 | 0x6 | 0x7 | 0xC => [.x, .byte]
  | 0x5 | 0x8 | 0x9 => [.x, .y]
  | 0xD => [.x, .y, .nibble]
  | _ => [.x]

/-- The field that selects an instruction within a family, if one does. -/
def selector? : Nat → Option Field
  | 0x0 | 0xE | 0xF => some .byte
  | 0x8 => some .nibble
  | _ => none

theorem shows_operands {row : Key × Template} (h : row ∈ rows) {f : Field}
    (hf : f ∈ operands row.1.1) : .field f ∈ row.2 := by
  revert row f
  decide

theorem selector_of_row {row : Key × Template} (h : row ∈ rows) :
    row.1.2.map Prod.fst = selector? row.1.1 := by
  revert row
  decide

end Template

namespace Instruction

open Template

/-- A word is read by its top nibble, the field that selects, and the fields that are used. -/
theorem ofOpcode?_congr {c c' : Opcode} (hf : c.family.val = c'.family.val)
    (hs : ∀ f, selector? c.family.val = some f → f.value c = f.value c')
    (ho : ∀ f ∈ operands c.family.val, f.value c = f.value c') : ofOpcode? c = ofOpcode? c' := by
  have hlt := c.family.isLt
  generalize hn : c.family.val = n at hf hs ho hlt
  have hx : .x ∈ operands n → c.x = c'.x := fun h => Fin.ext (ho .x h)
  have hy : .y ∈ operands n → c.y = c'.y := fun h => Fin.ext (ho .y h)
  have hnibble : .nibble ∈ operands n → c.nibble = c'.nibble := fun h => Fin.ext (ho .nibble h)
  have hbyte : .byte ∈ operands n → c.byte = c'.byte := fun h => UInt8.toNat_inj.1 (ho .byte h)
  have haddress : .address ∈ operands n → c.address = c'.address := fun h => Fin.ext (ho .address h)
  have hsbyte : selector? n = some .byte → c.byte = c'.byte := fun h => UInt8.toNat_inj.1 (hs .byte h)
  have hsnibble : selector? n = some .nibble → c.nibble = c'.nibble := fun h => Fin.ext (hs .nibble h)
  unfold ofOpcode?
  rw [hn, ← hf]
  clear hn hf hs ho
  interval_cases n
  case «0» => simp only [hsbyte rfl]
  case «1» | «2» | «10» | «11» => simp only [haddress (by decide)]
  case «3» | «4» | «6» | «7» | «12» => simp only [hx (by decide), hbyte (by decide)]
  case «5» | «9» => simp only [hx (by decide), hy (by decide)]
  case «8» => simp only [hsnibble rfl, hx (by decide), hy (by decide)]
  case «13» => simp only [hx (by decide), hy (by decide), hnibble (by decide)]
  case «14» | «15» => simp only [hsbyte rfl, hx (by decide)]

end Instruction

namespace Opcode

/-! ### The two readings compared -/

theorem template?_eq_none_iff {c : Opcode} : c.template? = none ↔ c.IsIllegal := by
  have hlt := c.family.isLt
  have hnibble := c.nibble.isLt
  unfold template? IsIllegal
  generalize c.family.val = n at hlt ⊢
  interval_cases n
  case «0» | «14» | «15» =>
    refine (Template.lookup_eq_none_iff (n := c.byte.toNat)).trans ?_
    simp
  case «8» =>
    refine (Template.lookup_eq_none_iff (n := c.nibble.val)).trans ?_
    simp
    omega
  all_goals exact iff_of_false (Option.some_ne_none _) (by simp)

theorem disassemble_eq_unknown_iff {c : Opcode} :
    c.disassemble = unknownMnemonic ↔ c.IsIllegal := by
  rw [← template?_eq_none_iff]
  cases ht : c.template? with
  | none => simp only [disassemble, ht]
  | some t =>
    obtain ⟨k, hrow, -⟩ := Template.exists_row ht
    refine iff_of_false (fun h => Template.skeleton_ne_unknown hrow ?_) (by simp)
    simp only [disassemble, ht] at h
    rw [← Template.map_mask_fill c t, h]

/-- Words with the same text are the same instruction, unless the text is that of no instruction. -/
theorem ofOpcode?_eq_of_disassemble_eq {c c' : Opcode} (h : c.disassemble = c'.disassemble)
    (hc : c.disassemble ≠ unknownMnemonic) :
    Instruction.ofOpcode? c = Instruction.ofOpcode? c' := by
  have hc' : c'.disassemble ≠ unknownMnemonic := h ▸ hc
  rw [ne_eq, disassemble_eq_unknown_iff, ← template?_eq_none_iff] at hc hc'
  obtain ⟨t, ht⟩ := Option.ne_none_iff_exists'.1 hc
  obtain ⟨t', ht'⟩ := Option.ne_none_iff_exists'.1 hc'
  obtain ⟨k, hrow, hfamily, hselector⟩ := Template.exists_row ht
  obtain ⟨k', hrow', hfamily', hselector'⟩ := Template.exists_row ht'
  have hfill : t.fill c = t'.fill c' := by simpa only [disassemble, ht, ht'] using h
  have hskeleton : t.skeleton = t'.skeleton := by
    rw [← Template.map_mask_fill c t, hfill, Template.map_mask_fill]
  cases Template.row_eq_of_skeleton_eq hrow hrow' hskeleton
  apply Instruction.ofOpcode?_congr (hfamily.trans hfamily'.symm)
  · intro f hf
    rw [hfamily, ← Template.selector_of_row hrow] at hf
    obtain ⟨⟨g, n⟩, hkey, rfl⟩ := Option.map_eq_some_iff.1 hf
    exact (hselector g n hkey).trans (hselector' g n hkey).symm
  · intro f hf
    rw [hfamily] at hf
    exact Template.value_eq_of_fill_eq hfill (Template.shows_operands hrow hf)

end Opcode

end Chip8
