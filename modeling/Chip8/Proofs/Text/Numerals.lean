import Chip8.Text.Integer
import Chip8.Proofs.Text.Entries
import Chip8.Proofs.Text.HexDigits
import Mathlib.Data.List.TakeWhile

/-!
# Numerals

A numeral is a way to write an integer in a base: blanks, a sign, a mark of the base, digits in groups
joined by single underscores, and blanks (`Numeral`).  A text is read as an integer iff it is the text
of a numeral, up to characters outside ASCII that stand for others (`integer?_eq_some_iff`).  Among the
numerals are the decimal texts of integers (`integer?_toString`) and plain hexadecimal digits, in lower
or upper case (`integer?_of_hexDigits`).
-/

namespace Chip8.Text

/-! ### Ways to write an integer -/

/-- A sign in front of digits, which may be missing. -/
inductive Sign
  | missing | plus | minus
deriving DecidableEq

/-- The characters of a sign. -/
def Sign.text : Sign → List Char
  | missing => []
  | plus => ['+']
  | minus => ['-']

/-- The integer of a natural number with a sign. -/
def Sign.apply (s : Sign) (n : Nat) : Int :=
  match s with
  | minus => -(n : Int)
  | _ => n

/-- The marks of a base that may stand in front of its digits. -/
def Base.marks : Base → List (List Char)
  | .ten => [[]]
  | .sixteen => [[], ['0', 'x'], ['0', 'X'], ['0', 'x', '_'], ['0', 'X', '_']]

/-- Whether characters are a group of digits of a base. -/
def Base.IsGroup (b : Base) (cs : List Char) : Prop := cs ≠ [] ∧ ∀ c ∈ cs, (b.digit? c).isSome

/-- A way to write an integer in a base. -/
structure Numeral (b : Base) where
  before : List Char
  sign : Sign
  mark : List Char
  groups : List (List Char)
  after : List Char
  blank_before : ∀ c ∈ before, isPlainBlank c
  mark_mem : mark ∈ b.marks
  groups_ne_nil : groups ≠ []
  isGroup : ∀ g ∈ groups, b.IsGroup g
  admitted : b.admits groups.flatten.length
  blank_after : ∀ c ∈ after, isPlainBlank c

namespace Numeral

variable {b : Base}

/-- The digits with the underscores between their groups. -/
def body (s : Numeral b) : List Char := ['_'].intercalate s.groups

/-- The characters of a numeral. -/
def text (s : Numeral b) : List Char := s.before ++ (s.sign.text ++ (s.mark ++ s.body)) ++ s.after

/-- The integer that a numeral writes. -/
def value (s : Numeral b) : Int := s.sign.apply (b.value (s.groups.flatten.filterMap b.digit?))

end Numeral

/-! ### Digits -/

section Digits

variable {b : Base} {c : Char}

theorem toNat_of_isSome_digit? (h : (b.digit? c).isSome) : 48 ≤ c.toNat ∧ c.toNat ≤ 102 := by
  obtain ⟨d, hd⟩ := Option.isSome_iff_exists.1 h
  obtain ⟨hv, hlt⟩ := Option.filter_eq_some_iff.1 hd
  have hsize : d < 16 := Nat.lt_of_lt_of_le (by simpa using hlt) (by cases b <;> decide)
  simp only [asciiDigitValue?] at hv
  split_ifs at hv <;> cases hv <;> omega

theorem not_blank_of_isSome_digit? (h : (b.digit? c).isSome) : isPlainBlank c = false := by
  have hlow := (toNat_of_isSome_digit? h).1
  have hspace : c ≠ ' ' := by
    rintro rfl
    exact absurd hlow (by decide)
  have htab : ¬c.toNat ≤ 13 := by omega
  simp [isPlainBlank, hspace, htab]

/-- A digit is none of the other characters that a numeral is made of. -/
theorem notMem_of_isSome_digit? (h : (b.digit? c).isSome) : c ∉ ['+', '-', '_', 'x', 'X'] := by
  intro hmem
  have hnone : ['+', '-', '_', 'x', 'X'].all (fun c => (b.digit? c).isNone) = true := by
    cases b <;> rfl
  rw [Option.isNone_iff_eq_none.1 (List.all_eq_true.1 hnone c hmem)] at h
  cases h

theorem group?_eq_some_iff {cs : List Char} {ds : List Nat} :
    b.group? cs = some ds ↔ b.IsGroup cs ∧ ds = cs.filterMap b.digit? := by
  unfold Base.group? Base.IsGroup
  by_cases hcs : cs = []
  · simp [hcs]
  · rw [if_neg (by simpa using hcs), mapM_eq_some_filterMap_iff]
    simp [hcs]

/-- Digits are read iff they come in groups joined by single underscores. -/
theorem digits?_eq_some_iff {cs : List Char} {ds : List Nat} :
    b.digits? cs = some ds ↔ ∃ groups : List (List Char), groups ≠ [] ∧
      (∀ g ∈ groups, b.IsGroup g) ∧ cs = ['_'].intercalate groups ∧
        ds = groups.flatten.filterMap b.digit? := by
  have hsome (g : List Char) : (b.group? g).isSome ↔ b.IsGroup g := by
    simp [Option.isSome_iff_exists, group?_eq_some_iff]
  have hget {groups : List (List Char)} (h : ∀ g ∈ groups, b.IsGroup g) :
      (groups.filterMap b.group?).flatten = groups.flatten.filterMap b.digit? := by
    have hg : groups.filterMap b.group? = groups.map fun g => g.filterMap b.digit? := by
      rw [← List.filterMap_eq_map]
      exact List.filterMap_congr fun g hm => group?_eq_some_iff.2 ⟨h g hm, rfl⟩
    rw [hg, List.filterMap_flatten]
  simp only [Base.digits?, Option.map_eq_some_iff, mapM_eq_some_filterMap_iff, hsome]
  constructor
  · rintro ⟨_, ⟨hall, rfl⟩, rfl⟩
    exact ⟨_, List.splitOn_ne_nil '_' cs, hall, (List.intercalate_splitOn '_').symm, hget hall⟩
  · rintro ⟨groups, hne, hall, rfl, rfl⟩
    have hsplit : (['_'].intercalate groups).splitOn '_' = groups :=
      List.splitOn_intercalate '_' (fun g hg hmem =>
        notMem_of_isSome_digit? ((hall g hg).2 '_' hmem) (by decide)) hne
    rw [hsplit]
    exact ⟨_, ⟨hall, rfl⟩, hget hall⟩

theorem natural?_eq_some_iff {cs : List Char} {n : Nat} :
    b.natural? cs = some n ↔ ∃ groups : List (List Char), groups ≠ [] ∧
      (∀ g ∈ groups, b.IsGroup g) ∧ cs = ['_'].intercalate groups ∧
        b.admits groups.flatten.length ∧ n = b.value (groups.flatten.filterMap b.digit?) := by
  have hlen {groups : List (List Char)} (h : ∀ g ∈ groups, b.IsGroup g) :
      (groups.flatten.filterMap b.digit?).length = groups.flatten.length := by
    rw [List.filterMap_length_eq_length]
    intro c hc
    obtain ⟨g, hg, hcg⟩ := List.mem_flatten.1 hc
    exact (h g hg).2 c hcg
  simp only [Base.natural?, Option.bind_eq_bind, Option.bind_eq_some_iff, digits?_eq_some_iff]
  constructor
  · rintro ⟨_, ⟨groups, hne, hall, rfl, rfl⟩, hn⟩
    rw [hlen hall] at hn
    split at hn
    · next hadmits => exact ⟨groups, hne, hall, rfl, hadmits, (Option.some.inj hn).symm⟩
    · cases hn
  · rintro ⟨groups, hne, hall, rfl, hadmits, rfl⟩
    exact ⟨_, ⟨groups, hne, hall, rfl, rfl⟩, by rw [hlen hall, if_pos hadmits]⟩

end Digits

/-! ### Blanks, signs and marks -/

theorem exists_eq_trimBlanks (cs : List Char) : ∃ before after,
    cs = before ++ trimBlanks cs ++ after ∧ (∀ c ∈ before, isPlainBlank c) ∧
      ∀ c ∈ after, isPlainBlank c := by
  refine ⟨cs.takeWhile isPlainBlank, ((cs.dropWhile isPlainBlank).reverse.takeWhile
    isPlainBlank).reverse, ?_, fun c hc => List.mem_takeWhile_imp hc, fun c hc => ?_⟩
  · rw [trimBlanks, List.append_assoc, ← List.reverse_append, List.takeWhile_append_dropWhile,
      List.reverse_reverse, List.takeWhile_append_dropWhile]
  · exact List.mem_takeWhile_imp (List.mem_reverse.1 hc)

theorem dropWhile_of_blanks {before cs : List Char} (hb : ∀ c ∈ before, isPlainBlank c)
    (hc : ∃ c ∈ cs.head?, isPlainBlank c = false) : (before ++ cs).dropWhile isPlainBlank = cs := by
  obtain ⟨c, hhead, hc⟩ := hc
  obtain ⟨rest, rfl⟩ := List.head?_eq_some_iff.1 hhead
  rw [List.dropWhile_append_of_pos hb, List.dropWhile_cons_of_neg (by simp [hc])]

/-- Blanks at the ends are trimmed, and nothing more. -/
theorem trimBlanks_append {before cs after : List Char} (hb : ∀ c ∈ before, isPlainBlank c)
    (ha : ∀ c ∈ after, isPlainBlank c) (hhead : ∃ c ∈ cs.head?, isPlainBlank c = false)
    (hlast : ∃ c ∈ cs.getLast?, isPlainBlank c = false) :
    trimBlanks (before ++ cs ++ after) = cs := by
  have hfront : (before ++ (cs ++ after)).dropWhile isPlainBlank = cs ++ after := by
    obtain ⟨c, hc, hblank⟩ := hhead
    exact dropWhile_of_blanks hb ⟨c, List.mem_head?_append_of_mem_head? hc, hblank⟩
  have hback : (after.reverse ++ cs.reverse).dropWhile isPlainBlank = cs.reverse := by
    rw [← List.head?_reverse] at hlast
    exact dropWhile_of_blanks (fun c hc => ha c (List.mem_reverse.1 hc)) hlast
  rw [trimBlanks, List.append_assoc, hfront, List.reverse_append, hback, List.reverse_reverse]

section Marks

variable (b : Base)

theorem signed?_minus (cs : List Char) :
    b.signed? ('-' :: cs) = (b.natural? (b.afterMark cs)).map Sign.minus.apply := by
  simp only [Base.signed?]
  cases b.natural? (b.afterMark cs) <;> rfl

theorem signed?_plus (cs : List Char) :
    b.signed? ('+' :: cs) = (b.natural? (b.afterMark cs)).map Sign.plus.apply := by
  simp only [Base.signed?]
  cases b.natural? (b.afterMark cs) <;> rfl

theorem signed?_missing {cs : List Char} (hm : cs.head? ≠ some '-') (hp : cs.head? ≠ some '+') :
    b.signed? cs = (b.natural? (b.afterMark cs)).map Sign.missing.apply := by
  unfold Base.signed?
  split
  · exact absurd rfl hm
  · exact absurd rfl hp
  · cases b.natural? (b.afterMark cs) <;> rfl

/-- A text is a sign, or none, and the natural number that the sign is applied to. -/
theorem exists_sign (cs : List Char) : ∃ (sign : Sign) (rest : List Char), cs = sign.text ++ rest ∧
    b.signed? cs = (b.natural? (b.afterMark rest)).map sign.apply := by
  by_cases hm : cs.head? = some '-'
  · obtain ⟨rest, rfl⟩ := List.head?_eq_some_iff.1 hm
    exact ⟨.minus, rest, rfl, signed?_minus b rest⟩
  · by_cases hp : cs.head? = some '+'
    · obtain ⟨rest, rfl⟩ := List.head?_eq_some_iff.1 hp
      exact ⟨.plus, rest, rfl, signed?_plus b rest⟩
    · exact ⟨.missing, cs, rfl, signed?_missing b hm hp⟩

theorem signed?_text (sign : Sign) {rest : List Char} (hm : rest.head? ≠ some '-')
    (hp : rest.head? ≠ some '+') :
    b.signed? (sign.text ++ rest) = (b.natural? (b.afterMark rest)).map sign.apply := by
  cases sign with
  | missing => exact signed?_missing b hm hp
  | plus => exact signed?_plus b rest
  | minus => exact signed?_minus b rest

/-- A text is a mark, or none, and what follows it. -/
theorem exists_mark (cs : List Char) : ∃ mark ∈ b.marks, cs = mark ++ b.afterMark cs := by
  have hnone : ([] : List Char) ∈ b.marks := by cases b <;> decide
  unfold Base.afterMark
  split
  · next m rest =>
    split_ifs with h
    · obtain ⟨rfl, hm⟩ := h
      split
      · rcases hm with rfl | rfl
        · exact ⟨['0', 'x', '_'], by decide, rfl⟩
        · exact ⟨['0', 'X', '_'], by decide, rfl⟩
      · rcases hm with rfl | rfl
        · exact ⟨['0', 'x'], by decide, rfl⟩
        · exact ⟨['0', 'X'], by decide, rfl⟩
    · exact ⟨[], hnone, rfl⟩
  · exact ⟨[], hnone, rfl⟩

/-- A mark is recognised by the digits behind it, none of which is one of its letters. -/
theorem afterMark_append {mark digits : List Char} (h : mark ∈ b.marks)
    (hx : ∀ c ∈ digits, c ≠ 'x' ∧ c ≠ 'X') (hhead : digits.head? ≠ some '_') :
    b.afterMark (mark ++ digits) = digits := by
  have hplain : b.afterMark digits = digits := by
    unfold Base.afterMark
    split
    · next m rest =>
      rw [if_neg]
      rintro ⟨-, hm⟩
      have := hx m (List.mem_cons_of_mem _ (List.mem_cons_self ..))
      exact hm.elim this.1 this.2
    · rfl
  have hmarked (m : Char) (hm : m = 'x' ∨ m = 'X') :
      Base.afterMark .sixteen ('0' :: m :: digits) = digits := by
    show (if _ then _ else _) = _
    rw [if_pos ⟨rfl, hm⟩]
    split
    · exact absurd rfl hhead
    · rfl
  cases b with
  | ten =>
    rw [List.mem_singleton.1 h]
    exact hplain
  | sixteen =>
    simp only [Base.marks, List.mem_cons, List.not_mem_nil, or_false] at h
    rcases h with rfl | rfl | rfl | rfl | rfl
    · exact hplain
    · exact hmarked 'x' (Or.inl rfl)
    · exact hmarked 'X' (Or.inr rfl)
    · rfl
    · rfl

end Marks

/-! ### Reading numerals -/

/-- Whether characters are digits and underscores, and a digit stands at both ends. -/
structure Base.IsBody (b : Base) (cs : List Char) : Prop where
  head : ∃ c ∈ cs.head?, (b.digit? c).isSome
  last : ∃ c ∈ cs.getLast?, (b.digit? c).isSome
  all : ∀ c ∈ cs, c = '_' ∨ (b.digit? c).isSome

section Body

variable {b : Base} {cs : List Char}

theorem isBody_of_isGroup (h : b.IsGroup cs) : b.IsBody cs where
  head := ⟨_, List.head?_eq_some_head h.1, h.2 _ (List.head_mem h.1)⟩
  last := ⟨_, List.getLast?_eq_some_getLast h.1, h.2 _ (List.getLast_mem h.1)⟩
  all c hc := Or.inr (h.2 c hc)

theorem Base.IsBody.join {cs' : List Char} (h : b.IsBody cs) (h' : b.IsBody cs') :
    b.IsBody (cs ++ '_' :: cs') where
  head := by
    obtain ⟨c, hc, hd⟩ := h.head
    exact ⟨c, List.mem_head?_append_of_mem_head? hc, hd⟩
  last := by
    obtain ⟨c, hc, hd⟩ := h'.last
    exact ⟨c, List.mem_getLast?_append_of_mem_getLast? (List.mem_getLast?_cons hc), hd⟩
  all c hc := by
    rcases List.mem_append.1 hc with hc | hc
    · exact h.all c hc
    · rcases List.mem_cons.1 hc with rfl | hc
      · exact Or.inl rfl
      · exact h'.all c hc

theorem isBody_intercalate {groups : List (List Char)} (hne : groups ≠ [])
    (h : ∀ g ∈ groups, b.IsGroup g) : b.IsBody (['_'].intercalate groups) := by
  induction groups with
  | nil => exact absurd rfl hne
  | cons g groups ih =>
    obtain ⟨hg, hgroups⟩ := List.forall_mem_cons.1 h
    cases groups with
    | nil => simpa using isBody_of_isGroup hg
    | cons g' groups =>
      rw [List.intercalate_cons_cons]
      simpa using (isBody_of_isGroup hg).join (ih (List.cons_ne_nil _ _) hgroups)

namespace Base.IsBody

theorem head?_ne (h : b.IsBody cs) :
    cs.head? ≠ some '+' ∧ cs.head? ≠ some '-' ∧ cs.head? ≠ some '_' := by
  obtain ⟨c, hc, hd⟩ := h.head
  have := notMem_of_isSome_digit? hd
  rw [Option.mem_def.1 hc]
  simp_all

theorem noLetter (h : b.IsBody cs) : ∀ c ∈ cs, c ≠ 'x' ∧ c ≠ 'X' := by
  intro c hc
  rcases h.all c hc with rfl | hd
  · decide
  · have := notMem_of_isSome_digit? hd
    simp_all

end Base.IsBody

theorem exists_head?_of_mark {mark : List Char} (hm : mark ∈ b.marks) (h : b.IsBody cs) :
    ∃ c ∈ (mark ++ cs).head?, (b.digit? c).isSome := by
  have hmark : mark = [] ∨ mark.head? = some '0' := by
    revert mark
    cases b <;> decide
  rcases hmark with rfl | hzero
  · exact h.head
  · exact ⟨'0', List.mem_head?_append_of_mem_head? hzero, by cases b <;> decide⟩

/-- A sign, a mark and digits have no blanks at their ends. -/
theorem not_blank_ends (sign : Sign) {mark : List Char} (hm : mark ∈ b.marks) (h : b.IsBody cs) :
    (∃ c ∈ (sign.text ++ (mark ++ cs)).head?, isPlainBlank c = false) ∧
      ∃ c ∈ (sign.text ++ (mark ++ cs)).getLast?, isPlainBlank c = false := by
  constructor
  · cases sign with
    | missing =>
      obtain ⟨c, hc, hd⟩ := exists_head?_of_mark hm h
      exact ⟨c, hc, not_blank_of_isSome_digit? hd⟩
    | plus => exact ⟨'+', rfl, by decide⟩
    | minus => exact ⟨'-', rfl, by decide⟩
  · obtain ⟨c, hc, hd⟩ := h.last
    exact ⟨c, List.mem_getLast?_append_of_mem_getLast? (List.mem_getLast?_append_of_mem_getLast? hc),
      not_blank_of_isSome_digit? hd⟩

end Body

/-- A numeral is read as the integer that it writes. -/
theorem Numeral.signed?_trimBlanks {b : Base} (s : Numeral b) :
    b.signed? (trimBlanks s.text) = some s.value := by
  have hbody : b.IsBody s.body := isBody_intercalate s.groups_ne_nil s.isGroup
  have hmark : b.afterMark (s.mark ++ s.body) = s.body :=
    afterMark_append b s.mark_mem hbody.noLetter hbody.head?_ne.2.2
  have hnat : b.natural? s.body = some (b.value (s.groups.flatten.filterMap b.digit?)) :=
    natural?_eq_some_iff.2 ⟨s.groups, s.groups_ne_nil, s.isGroup, rfl, s.admitted, rfl⟩
  have hsign : (s.mark ++ s.body).head? ≠ some '-' ∧ (s.mark ++ s.body).head? ≠ some '+' := by
    obtain ⟨c, hc, hd⟩ := exists_head?_of_mark s.mark_mem hbody
    have := notMem_of_isSome_digit? hd
    rw [Option.mem_def.1 hc]
    simp_all
  obtain ⟨hhead, hlast⟩ := not_blank_ends s.sign s.mark_mem hbody
  rw [Numeral.text, trimBlanks_append s.blank_before s.blank_after hhead hlast,
    signed?_text b s.sign hsign.1 hsign.2, hmark, hnat]
  rfl

/-- A text is read as an integer iff it is the text of a numeral that writes the integer, once its
characters outside ASCII are replaced by those that they stand for. -/
theorem integer?_eq_some_iff {b : Base} {cs : List Char} {n : Int} :
    integer? b cs = some n ↔ ∃ s : Numeral b, cs.map plainChar = s.text ∧ s.value = n := by
  constructor
  · intro h
    obtain ⟨before, after, htrim, hb, ha⟩ := exists_eq_trimBlanks (cs.map plainChar)
    obtain ⟨sign, rest, hrest, hsigned⟩ := exists_sign b (trimBlanks (cs.map plainChar))
    obtain ⟨mark, hmark, hbody⟩ := exists_mark b rest
    rw [integer?, hsigned] at h
    obtain ⟨k, hk, rfl⟩ := Option.map_eq_some_iff.1 h
    obtain ⟨groups, hne, hall, hgroups, hadmits, rfl⟩ := natural?_eq_some_iff.1 hk
    refine ⟨⟨before, sign, mark, groups, after, hb, hmark, hne, hall, hadmits, ha⟩, ?_, rfl⟩
    rw [htrim, hrest, hbody, hgroups]
    rfl
  · rintro ⟨s, hs, rfl⟩
    rw [integer?, hs, s.signed?_trimBlanks]

/-! ### Plain digits -/

theorem plainChar_of_isSome_digit? {b : Base} {c : Char} (h : (b.digit? c).isSome) :
    plainChar c = c := by
  rw [plainChar, if_pos (by have := (toNat_of_isSome_digit? h).2; omega)]

/-- A group of digits, with a sign or without, is read as the number that it writes. -/
theorem integer?_of_isGroup {b : Base} (sign : Sign) {cs : List Char} (h : b.IsGroup cs)
    (hadmits : b.admits cs.length) :
    integer? b (sign.text ++ cs) = some (sign.apply (b.value (cs.filterMap b.digit?))) := by
  have hsign : sign.text.map plainChar = sign.text := by cases sign <;> rfl
  have hdigits : cs.map plainChar = cs :=
    (List.map_congr_left fun c hc => plainChar_of_isSome_digit? (h.2 c hc)).trans cs.map_id
  have hmark : ([] : List Char) ∈ b.marks := by cases b <;> decide
  refine integer?_eq_some_iff.2 ⟨⟨[], sign, [], [cs], [], nofun, hmark, by simp, by simpa using h,
    by simpa using hadmits, nofun⟩, ?_, ?_⟩
  · simp [Numeral.text, Numeral.body, hsign, hdigits]
  · simp [Numeral.value]

/-! ### Decimal digits -/

theorem digit?_ten_of_isDigit {c : Char} (h : c.isDigit = true) :
    Base.ten.digit? c = some (c.toNat - '0'.toNat) := by
  obtain ⟨hlow, hhigh⟩ := Char.isDigit_iff_toNat.1 h
  have h0 : '0'.toNat = 48 := rfl
  have h9 : '9'.toNat = 57 := rfl
  have hvalue : asciiDigitValue? c = some (c.toNat - '0'.toNat) := if_pos (by omega)
  rw [Base.digit?, hvalue, Option.filter_some, if_pos]
  exact decide_eq_true (show c.toNat - '0'.toNat < 10 by omega)

theorem isDigit_of_mem_decimal {n : Nat} {c : Char} (h : c ∈ Nat.toDigits 10 n) : c.isDigit = true :=
  Nat.isDigit_of_mem_toDigits (by decide) (by decide) h

theorem isGroup_decimal (n : Nat) : Base.ten.IsGroup (Nat.toDigits 10 n) := by
  refine ⟨Nat.toDigits_ne_nil, fun c hc => ?_⟩
  rw [digit?_ten_of_isDigit (isDigit_of_mem_decimal hc)]
  rfl

theorem value_decimal (n : Nat) :
    Base.ten.value ((Nat.toDigits 10 n).filterMap Base.ten.digit?) = n := by
  have hdigits : (Nat.toDigits 10 n).filterMap Base.ten.digit? =
      (Nat.toDigits 10 n).map fun c => c.toNat - '0'.toNat :=
    List.filterMap_eq_map_iff_forall_eq_some.2 fun c hc =>
      digit?_ten_of_isDigit (isDigit_of_mem_decimal hc)
  rw [hdigits, Base.value, List.foldl_map]
  exact Nat.ofDigitChars_ten_toDigits

/-- The decimal text of an integer is its digits, behind a minus sign if it is below zero. -/
theorem exists_sign_of_toString (n : Int) : ∃ sign : Sign,
    (toString n).toList = sign.text ++ Nat.toDigits 10 n.natAbs ∧ sign.apply n.natAbs = n := by
  cases n with
  | ofNat n => exact ⟨.missing, Nat.toList_repr, rfl⟩
  | negSucc n =>
    refine ⟨.minus, ?_, rfl⟩
    show ("-" ++ (n + 1).repr).toList = _
    rw [String.toList_append, Nat.toList_repr]
    rfl

/-- An integer of as many digits as may be read is read back from its decimal text. -/
theorem integer?_toString {n : Int} (h : (Nat.toDigits 10 n.natAbs).length ≤ 4300) :
    integer? .ten (toString n).toList = some n := by
  obtain ⟨sign, htext, hsign⟩ := exists_sign_of_toString n
  rw [htext, integer?_of_isGroup sign (isGroup_decimal _) (decide_eq_true h), value_decimal, hsign]

theorem comma_notMem_toString (n : Int) : ',' ∉ (toString n).toList := by
  obtain ⟨sign, htext, -⟩ := exists_sign_of_toString n
  rw [htext, List.mem_append, not_or]
  refine ⟨by cases sign <;> decide, fun hdigit => ?_⟩
  exact absurd (isDigit_of_mem_decimal hdigit) (by decide)

/-! ### Hexadecimal digits -/

theorem forall_ascii {P : Char → Prop} (h : ∀ n < 128, P (Char.ofNat n)) {c : Char}
    (hc : c.toNat < 128) : P c := by
  have := h c.toNat hc
  rwa [Char.ofNat_toNat] at this

theorem toNat_lt_of_isHexDigit {c : Char} (h : c.isHexDigit = true) : c.toNat < 128 := by
  simp only [Char.isHexDigit, Char.isDigit, Bool.or_eq_true, Bool.and_eq_true, decide_eq_true_eq,
    UInt32.le_iff_toNat_le] at h
  have h9 : ('9' : Char).val.toNat = 57 := rfl
  have hf : ('f' : Char).val.toNat = 102 := rfl
  have hF : ('F' : Char).val.toNat = 70 := rfl
  rw [Char.toNat]
  omega

/-- The digits of base sixteen are the hexadecimal digits in lower or upper case. -/
theorem digit?_sixteen (c : Char) :
    Base.sixteen.digit? c = if c.isHexDigit then some (digitValue c.toLower) else none := by
  by_cases hc : c.toNat < 128
  · revert hc
    apply forall_ascii
    decide +kernel
  · have hdigit : Base.sixteen.digit? c = none := by
      rw [← Option.not_isSome_iff_eq_none]
      intro h
      have := (toNat_of_isSome_digit? h).2
      omega
    rw [hdigit, if_neg (mt toNat_lt_of_isHexDigit hc)]

/-- Plain hexadecimal digits are read as the number that they write. -/
theorem integer?_of_hexDigits {cs : List Char} (hne : cs ≠ []) (h : ∀ c ∈ cs, c.isHexDigit = true) :
    integer? .sixteen cs = some (value (cs.map Char.toLower) : Int) := by
  have hdigit (c : Char) (hc : c ∈ cs) :
      Base.sixteen.digit? c = some (digitValue c.toLower) := by
    rw [digit?_sixteen, if_pos (h c hc)]
  have hgroup : Base.sixteen.IsGroup cs := ⟨hne, fun c hc => by rw [hdigit c hc]; rfl⟩
  have hdigits : cs.filterMap Base.sixteen.digit? = cs.map fun c => digitValue c.toLower :=
    List.filterMap_eq_map_iff_forall_eq_some.2 hdigit
  have hread := integer?_of_isGroup .missing hgroup rfl
  rw [hdigits, Base.value, List.foldl_map] at hread
  rw [value, List.foldl_map]
  exact hread

/-- The characters of a number in base sixteen are hexadecimal digits in lower case. -/
theorem of_isHexDigit {c : Char} (h : isHexDigit c = true) : c.isHexDigit = true ∧ c.toLower = c := by
  have hall : "0123456789abcdef".toList.all (fun c => c.isHexDigit && c.toLower == c) = true := by
    decide
  simpa using List.all_eq_true.1 hall c (by simpa [isHexDigit] using h)

end Chip8.Text
