import Chip8.Proofs.Text.HexDigits

/-!
# Fields between marks

A field of a text ends where a mark begins whose first character is in no field.  So texts of fields
with marks between them that are the same have the same fields (`field_inj`), also where a field has no
fixed width, and a row of numbers with a mark before each is read back in full (`markedNumbers_inj`).
Texts with one character between them, which is in none of them, are what the whole text splits into
(`splitOn_intercalate`).
-/

namespace Chip8.Text

/-- Whether a text is empty or begins with a character. -/
def Opens (c : Char) (s : String) : Prop := ∀ d ∈ s.toList.head?, d = c

theorem opens_empty (c : Char) : Opens c "" := by
  intro d hd
  cases hd

theorem opens_append {c : Char} {mark : String} (hm : mark.toList.head? = some c) (s : String) :
    Opens c (mark ++ s) := by
  intro d hd
  rw [String.toList_append, List.head?_append, hm] at hd
  exact (Option.some.inj hd).symm

/-- What stands before the first of some character. -/
theorem takeWhile_field {c : Char} {field rest : String} (hf : c ∉ field.toList) (hr : Opens c rest) :
    (field ++ rest).toList.takeWhile (· != c) = field.toList := by
  have hstop : rest.toList.takeWhile (· != c) = [] := by
    cases hl : rest.toList with
    | nil => rfl
    | cons d l =>
      have hd : d = c := hr d (by rw [hl]; rfl)
      simp [hd]
  have hin : ∀ d ∈ field.toList, (d != c) = true := by
    intro d hd
    exact bne_iff_ne.2 fun hdc => hf (hdc ▸ hd)
  rw [String.toList_append, List.takeWhile_append_of_pos hin, hstop, List.append_nil]

/-- Texts joined by a character that is in none of them are split there again. -/
theorem splitOn_intercalate {c : Char} {mark : String} (hm : mark.toList = [c]) {texts : List String}
    (hne : texts ≠ []) (h : ∀ t ∈ texts, c ∉ t.toList) :
    (mark.intercalate texts).toList.splitOn c = texts.map String.toList := by
  rw [String.toList_intercalate, hm]
  apply List.splitOn_intercalate
  · intro l hl
    obtain ⟨t, ht, rfl⟩ := List.mem_map.1 hl
    exact h t ht
  · simpa using hne

variable {c : Char} {a b rest rest' : String}

theorem append_inj_of_opens (ha : c ∉ a.toList) (hb : c ∉ b.toList) (hr : Opens c rest)
    (hr' : Opens c rest') (h : a ++ rest = b ++ rest') : a = b ∧ rest = rest' := by
  have hab : a = b := by
    apply String.toList_inj.1
    rw [← takeWhile_field ha hr, h, takeWhile_field hb hr']
  subst hab
  exact ⟨rfl, (String.append_right_inj a).1 h⟩

/-- A field ends at the mark behind it. -/
theorem field_inj (mark : String) (hm : mark.toList.head? = some c) (ha : c ∉ a.toList) (hb : c ∉ b.toList)
    (h : a ++ (mark ++ rest) = b ++ (mark ++ rest')) : a = b ∧ rest = rest' := by
  obtain ⟨hab, hrest⟩ := append_inj_of_opens ha hb (opens_append hm rest) (opens_append hm rest') h
  exact ⟨hab, (String.append_right_inj mark).1 hrest⟩

theorem blank_notMem_hex (width : Nat) (n : Int) : ' ' ∉ (hex width n).toList :=
  notMem_hex (by decide) (by decide) width n

/-- A number ends at the blank behind it, however many digits it has. -/
theorem hex_field_inj (mark : String) {width : Nat} {m n : Int} (hm : mark.toList.head? = some ' ')
    (h : hex width m ++ (mark ++ rest) = hex width n ++ (mark ++ rest')) : m = n ∧ rest = rest' := by
  obtain ⟨hmn, hrest⟩ := field_inj mark hm (blank_notMem_hex width m) (blank_notMem_hex width n) h
  exact ⟨hex_injective width hmn, hrest⟩

/-! ### Rows of numbers -/

/-- A row of numbers, each behind a mark. -/
def markedNumbers (mark : String) (width : Nat) (row : List Int) : String :=
  String.join (row.map fun n => mark ++ hex width n)

theorem markedNumbers_cons (mark : String) (width : Nat) (n : Int) (row : List Int) :
    markedNumbers mark width (n :: row) = mark ++ (hex width n ++ markedNumbers mark width row) := by
  rw [markedNumbers, List.map_cons, String.join_cons, String.append_assoc]
  rfl

theorem opens_markedNumbers {mark : String} (hm : mark.toList.head? = some c) (width : Nat) (row : List Int) :
    Opens c (markedNumbers mark width row) := by
  cases row with
  | nil => exact opens_empty c
  | cons n row =>
    rw [markedNumbers_cons]
    exact opens_append hm _

theorem markedNumbers_cons_ne {mark : String} (hm : mark.toList.head? = some c) (width : Nat) (n : Int)
    (row : List Int) : markedNumbers mark width (n :: row) ≠ "" := by
  intro hempty
  rw [markedNumbers_cons] at hempty
  have hlist := congrArg (·.toList.head?) hempty
  rw [String.toList_append, List.head?_append, hm] at hlist
  cases hlist

/-- A row of numbers behind marks that begin with a blank is known by its text. -/
theorem markedNumbers_inj {mark : String} (hm : mark.toList.head? = some ' ') {width : Nat}
    {row row' : List Int} (h : markedNumbers mark width row = markedNumbers mark width row') :
    row = row' := by
  induction row generalizing row' with
  | nil =>
    cases row' with
    | nil => rfl
    | cons n row' => exact absurd h.symm (markedNumbers_cons_ne hm width n row')
  | cons n row ih =>
    cases row' with
    | nil => exact absurd h (markedNumbers_cons_ne hm width n row)
    | cons n' row' =>
      rw [markedNumbers_cons, markedNumbers_cons, String.append_right_inj] at h
      obtain ⟨hn, hrest⟩ := append_inj_of_opens (blank_notMem_hex width n)
        (blank_notMem_hex width n') (opens_markedNumbers hm width row)
        (opens_markedNumbers hm width row') h
      rw [hex_injective width hn, ih hrest]

theorem length_hex_byte (b : UInt8) : (hex 2 b.toNat).toList.length = 2 := by
  rw [hex, String.toList_ofList]
  exact length_hexChars (by decide) b.toNat_lt

/-- Bytes need no mark between them, for each has two digits. -/
theorem join_hex_inj {bytes bytes' : List UInt8} (hlength : bytes.length = bytes'.length)
    (h : String.join (bytes.map fun b => hex 2 b.toNat) =
      String.join (bytes'.map fun b => hex 2 b.toNat)) : bytes = bytes' := by
  induction bytes generalizing bytes' with
  | nil => exact (List.length_eq_zero_iff.1 hlength.symm).symm
  | cons b bytes ih =>
    cases bytes' with
    | nil => cases hlength
    | cons b' bytes' =>
      simp only [List.map_cons, String.join_cons] at h
      have hchars := congrArg String.toList h
      simp only [String.toList_append] at hchars
      obtain ⟨hb, hrest⟩ :=
        List.append_inj hchars ((length_hex_byte b).trans (length_hex_byte b').symm)
      have hbyte := hex_injective 2 (String.toList_inj.1 hb)
      rw [ih (Nat.succ.inj hlength) (String.toList_inj.1 hrest),
        UInt8.toNat_inj.1 (Int.ofNat.inj hbyte)]

end Chip8.Text
