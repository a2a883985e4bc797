import Chip8.Text.Hex

/-!
# Reading hexadecimal digits back

A number is the value of its hexadecimal characters, zeros in front or not (`value_hexChars`), so that
numbers with the same characters are the same (`hex_injective`).  A field that is wide enough has exactly
its width, and masking its digits leaves nothing but the width (`map_mask_hexChars`).
-/

namespace Chip8.Text

/-- Whether a character is a lower case hexadecimal digit. -/
def isHexDigit (c : Char) : Bool := "0123456789abcdef".toList.contains c

/-- The value of a hexadecimal digit. -/
def digitValue (c : Char) : Nat := "0123456789abcdef".toList.idxOf c

/-- The number that hexadecimal digits write, the most significant first. -/
def value (digits : List Char) : Nat := digits.foldl (fun n c => 16 * n + digitValue c) 0

/-- A character as it is told apart from others when digits are not: all digits look the same. -/
def mask (c : Char) : Char := if isHexDigit c then '#' else c

/-! ### Digits of a number -/

theorem digitValue_digitChar {d : Nat} (h : d < 16) : digitValue d.digitChar = d := by
  revert d
  decide

theorem isHexDigit_digitChar {d : Nat} (h : d < 16) : isHexDigit d.digitChar = true := by
  revert d
  decide

theorem hexDigits_eq (n : Nat) :
    hexDigits n =
      if n < 16 then [n.digitChar] else hexDigits (n / 16) ++ [(n % 16).digitChar] :=
  Nat.toDigits_eq_if (by decide)

theorem value_hexDigits (n : Nat) : value (hexDigits n) = n := by
  induction n using Nat.strongRecOn with
  | ind n ih =>
    rw [hexDigits_eq]
    split
    · next h => simp [value, digitValue_digitChar h]
    · have hq : value (hexDigits (n / 16)) = n / 16 := ih (n / 16) (by omega)
      have hr : digitValue (n % 16).digitChar = n % 16 := digitValue_digitChar (by omega)
      rw [value, List.foldl_append, ← value, hq, List.foldl_cons, List.foldl_nil, hr]
      omega

theorem isHexDigit_of_mem_hexDigits {n : Nat} {c : Char} (h : c ∈ hexDigits n) :
    isHexDigit c = true := by
  induction n using Nat.strongRecOn with
  | ind n ih =>
    rw [hexDigits_eq] at h
    split at h
    · next hn =>
      rw [List.mem_singleton.1 h]
      exact isHexDigit_digitChar hn
    · rcases List.mem_append.1 h with h | h
      · exact ih (n / 16) (by omega) h
      · rw [List.mem_singleton.1 h]
        exact isHexDigit_digitChar (by omega)

/-! ### Fields of a width -/

theorem value_replicate_zero (k : Nat) : value (List.replicate k '0') = 0 := by
  induction k with
  | zero => rfl
  | succ k ih => exact ih

theorem value_leftpad (width n : Nat) : value ((hexDigits n).leftpad width '0') = n := by
  rw [List.leftpad, value, List.foldl_append, ← value, value_replicate_zero]
  exact value_hexDigits n

/-- A number is what its characters write. -/
theorem value_hexChars (width n : Nat) : value (hexChars width n) = n := by
  rw [hexChars_natCast, value_leftpad]

theorem hexChars_injective (width : Nat) {a b : Nat} (h : hexChars width a = hexChars width b) :
    a = b := by
  rw [← value_hexChars width a, h, value_hexChars]

theorem isHexDigit_of_mem_hexChars {width n : Nat} {c : Char} (h : c ∈ hexChars width n) :
    isHexDigit c = true := by
  rw [hexChars_natCast] at h
  rcases List.mem_append.1 h with h | h
  · rw [List.eq_of_mem_replicate h]
    decide
  · exact isHexDigit_of_mem_hexDigits h

theorem hexChars_negSucc (width n : Nat) :
    hexChars width (.negSucc n) = '-' :: (hexDigits (n + 1)).leftpad (width - 1) '0' := by
  rw [hexChars, if_pos (Int.negSucc_lt_zero n), Int.natAbs_negSucc]

theorem hexChars_natCast_ne_negSucc (width a b : Nat) :
    hexChars width a ≠ hexChars width (.negSucc b) := by
  intro h
  have hminus : '-' ∈ hexChars width (a : Int) := by
    rw [h, hexChars_negSucc]
    exact List.mem_cons_self
  exact absurd (isHexDigit_of_mem_hexChars hminus) (by decide)

/-- Integers with the same text are the same, of whatever sign and however wide. -/
theorem hex_injective (width : Nat) {a b : Int} (h : hex width a = hex width b) : a = b := by
  have hchars : hexChars width a = hexChars width b := by
    rw [← String.toList_ofList (l := hexChars width a), ← hex, h, hex, String.toList_ofList]
  cases a with
  | ofNat a =>
    cases b with
    | ofNat b => exact congrArg Int.ofNat (hexChars_injective width hchars)
    | negSucc b => exact absurd hchars (hexChars_natCast_ne_negSucc width a b)
  | negSucc a =>
    cases b with
    | ofNat b => exact absurd hchars.symm (hexChars_natCast_ne_negSucc width b a)
    | negSucc b =>
      rw [hexChars_negSucc, hexChars_negSucc] at hchars
      have hdigits := congrArg value (List.cons.inj hchars).2
      rw [value_leftpad, value_leftpad] at hdigits
      omega

/-- A character that is no digit is not in the text of an integer, unless it is the sign. -/
theorem notMem_hex {c : Char} (hc : isHexDigit c = false) (hs : c ≠ '-') (width : Nat) (n : Int) :
    c ∉ (hex width n).toList := by
  have hdigits (w : Nat) : c ∉ (hexDigits n.natAbs).leftpad w '0' := by
    rw [← hexChars_natCast]
    intro h
    rw [isHexDigit_of_mem_hexChars h] at hc
    cases hc
  rw [hex, String.toList_ofList, hexChars]
  split
  · exact List.not_mem_cons_of_ne_of_not_mem hs (hdigits (width - 1))
  · exact hdigits width

theorem length_hexChars {width n : Nat} (hw : 0 < width) (hn : n < Nat.pow 16 width) :
    (hexChars width n).length = width := by
  have hlen : (hexDigits n).length ≤ width := (Nat.length_toDigits_le_iff (by decide) hw).2 hn
  rw [hexChars_natCast, List.length_leftpad, Nat.max_eq_left hlen]

theorem map_mask_hexChars {width n : Nat} (hw : 0 < width) (hn : n < Nat.pow 16 width) :
    (hexChars width n).map mask = List.replicate width '#' := by
  rw [List.eq_replicate_iff]
  refine ⟨by rw [List.length_map, length_hexChars hw hn], fun b hb => ?_⟩
  obtain ⟨c, hc, rfl⟩ := List.mem_map.1 hb
  exact if_pos (isHexDigit_of_mem_hexChars hc)

end Chip8.Text
