import Mathlib.Data.List.Nodup
import Chip8.Proofs.Controls.KeymapTexts
import Chip8.Proofs.Text.Marks
import Chip8.Proofs.Text.Numerals

/-!
# Keymaps as they are written

Codes are entered into a keymap one after the other, and one that is there already is given the later
key.  So a keymap has as many codes as were entered exactly if no code came twice
(`Keymap.length_enterAll_eq_iff`), and then they stand for the keys in order.  A text that is not put in
lower case is a keymap iff it is sixteen numerals that write different integers, and is refused in words
otherwise; the decimal texts of any sixteen different integers are such a text
(`Keymap.parse_plain_outcomes`).
-/

namespace Chip8

open Text

namespace Keymap

/-- A code entered with a key: one that has a key is given the new one. -/
def enter (code : Int) (k : Key) : Keymap → Keymap
  | [] => [(code, k)]
  | (c, old) :: m => if c = code then (c, k) :: m else (c, old) :: enter code k m

/-- Codes with keys, entered in turn. -/
def enterAll (m : Keymap) (pairs : List (Int × Key)) : Keymap :=
  pairs.foldl (fun m (code, k) => m.enter code k) m

/-- Whether an entry of a text is a way to write an integer. -/
def Writes (entry : List Char) (c : Int) : Prop :=
  ∃ s : Numeral .ten, entry.map plainChar = s.text ∧ s.value = c

/-! ### Codes entered in turn -/

section Enter

variable {m : Keymap} {code : Int} {k : Key} {pairs : List (Int × Key)}

theorem enter_of_notMem (h : code ∉ m.map Prod.fst) : m.enter code k = m ++ [(code, k)] := by
  induction m with
  | nil => rfl
  | cons p m ih =>
    rw [List.map_cons, List.mem_cons, not_or] at h
    rw [enter, if_neg (Ne.symm h.1), ih h.2]
    rfl

theorem length_enter_of_mem (h : code ∈ m.map Prod.fst) : (m.enter code k).length = m.length := by
  induction m with
  | nil => cases h
  | cons p m ih =>
    rw [enter]
    split
    · rfl
    · next hne =>
      rw [List.map_cons, List.mem_cons] at h
      exact congrArg Nat.succ (ih (h.resolve_left (Ne.symm hne)))

theorem length_enter_le (m : Keymap) (code : Int) (k : Key) : (m.enter code k).length ≤ m.length + 1 := by
  by_cases h : code ∈ m.map Prod.fst
  · rw [length_enter_of_mem h]
    exact Nat.le_succ _
  · rw [enter_of_notMem h, List.length_append]
    exact Nat.le_refl _

theorem enterAll_cons (m : Keymap) (code : Int) (k : Key) (pairs : List (Int × Key)) :
    m.enterAll ((code, k) :: pairs) = (m.enter code k).enterAll pairs := rfl

theorem length_enterAll_le (m : Keymap) (pairs : List (Int × Key)) :
    (m.enterAll pairs).length ≤ m.length + pairs.length := by
  induction pairs generalizing m with
  | nil => exact Nat.le_refl _
  | cons p pairs ih =>
    rw [enterAll_cons, List.length_cons]
    have hrest := ih (m.enter p.1 p.2)
    have hfirst := length_enter_le m p.1 p.2
    omega

/-- Codes that differ from one another and from those before are appended in order. -/
theorem enterAll_of_nodup (h : (m.map Prod.fst ++ pairs.map Prod.fst).Nodup) :
    m.enterAll pairs = m ++ pairs := by
  induction pairs generalizing m with
  | nil => exact (List.append_nil m).symm
  | cons p pairs ih =>
    have hnew : p.1 ∉ m.map Prod.fst := by
      rw [List.map_cons, List.nodup_middle, List.nodup_cons, List.mem_append, not_or] at h
      exact h.1.1
    rw [enterAll_cons, enter_of_notMem hnew, ih (by simpa using h), List.append_assoc]
    rfl

/-- Where a code comes twice, one fewer is in the keymap. -/
theorem length_enterAll_lt (hm : (m.map Prod.fst).Nodup)
    (h : ¬(m.map Prod.fst ++ pairs.map Prod.fst).Nodup) :
    (m.enterAll pairs).length < m.length + pairs.length := by
  induction pairs generalizing m with
  | nil => exact absurd (by simpa using hm) h
  | cons p pairs ih =>
    rw [enterAll_cons, List.length_cons]
    by_cases hmem : p.1 ∈ m.map Prod.fst
    · have hrest := length_enterAll_le (m.enter p.1 p.2) pairs
      rw [length_enter_of_mem hmem] at hrest
      omega
    · have hcodes : ((m ++ [p]).map Prod.fst).Nodup := by
        simpa using List.Nodup.concat hmem hm
      have hrest := ih hcodes (by simpa using h)
      rw [List.length_append, List.length_singleton] at hrest
      rw [enter_of_notMem hmem]
      show ((m ++ [p]).enterAll pairs).length < _
      omega

/-- All codes that were entered are in the keymap exactly if none came twice. -/
theorem length_enterAll_eq_iff (pairs : List (Int × Key)) :
    (enterAll [] pairs).length = pairs.length ↔ (pairs.map Prod.fst).Nodup := by
  constructor
  · intro hlength
    by_contra hn
    have hlt := length_enterAll_lt (m := []) List.nodup_nil hn
    rw [List.length_nil, Nat.zero_add] at hlt
    omega
  · intro hn
    rw [enterAll_of_nodup (m := []) hn]
    rfl

end Enter

/-! ### Texts -/

variable {text : String} {codes : List Int}

theorem integer?_eq_some_iff_writes {entry : List Char} {c : Int} :
    integer? .ten entry = some c ↔ Writes entry c :=
  integer?_eq_some_iff

theorem integer?_eq_none_iff_writes {entry : List Char} :
    integer? .ten entry = none ↔ ∀ c, ¬Writes entry c := by
  simp only [← integer?_eq_some_iff_writes, Option.eq_none_iff_forall_ne_some, ne_eq]

theorem parse_plain_of_codes (h : codes? text = .ok codes) :
    parse text false = if codes.Nodup then .ok (ofCodes codes) else .error .repeated := by
  rw [parse, h]
  rfl

/-- Whether codes repeat is seen from the size of the keymap that they were entered into. -/
theorem parse_plain_eq_enterAll :
    parse text false = (codes? text).bind fun codes =>
      if (enterAll [] (codes.zip Key.all)).length = 16 then .ok (enterAll [] (codes.zip Key.all))
      else .error .repeated := by
  cases hc : codes? text with
  | error e => exact parse_of_error hc false
  | ok codes =>
    have hlength := length_of_codes? hc
    have hfst : (codes.zip Key.all).map Prod.fst = codes := ofCodes_fst hlength
    have hsize := length_enterAll_eq_iff (codes.zip Key.all)
    rw [hfst, show (codes.zip Key.all).length = 16 from length_ofCodes hlength] at hsize
    rw [parse_plain_of_codes hc]
    show _ = if _ then _ else _
    by_cases hn : codes.Nodup
    · rw [if_pos hn, if_pos (hsize.2 hn), enterAll_of_nodup (by simpa [hfst] using hn)]
      rfl
    · rw [if_neg hn, if_neg (mt hsize.1 hn)]

theorem parse_plain_eq_error_iff (e : Error) :
    parse text false = .error e ↔
      codes? text = .error e ∨ (∃ codes, codes? text = .ok codes ∧ ¬codes.Nodup) ∧ e = .repeated := by
  cases hc : codes? text with
  | error e' => simp [parse_of_error hc]
  | ok codes =>
    rw [parse_plain_of_codes hc]
    split
    · next hn => simp [hn]
    · next hn => simp [hn, eq_comm]

/-- Sixteen integers are read back from their decimal texts. -/
theorem codes?_of_toString (hlength : codes.length = 16)
    (hdigits : ∀ c ∈ codes, (Nat.toDigits 10 c.natAbs).length ≤ 4300) :
    codes? (",".intercalate (codes.map toString)) = .ok codes := by
  have hne : codes.map toString ≠ [] := by
    intro hnil
    rw [List.map_eq_nil_iff.1 hnil] at hlength
    cases hlength
  have hentries : entries (",".intercalate (codes.map toString)) =
      codes.map fun c => (toString c).toList := by
    rw [entries, splitOn_intercalate rfl hne, List.map_map]
    · rfl
    · intro t ht
      obtain ⟨c, -, rfl⟩ := List.mem_map.1 ht
      exact comma_notMem_toString c
  refine codes?_eq_ok_iff.2 ⟨by rw [hentries, List.length_map, hlength], ?_⟩
  rw [hentries, List.forall₂_map_left_iff, List.forall₂_same]
  exact fun c hc => integer?_toString (hdigits c hc)

/-- Every text is refused in words, for the first of three reasons, or is a keymap with all sixteen keys;
any sixteen different integers that can be read are the keymap of their decimal texts. -/
theorem parse_plain_outcomes (text : String) :
    (∀ m, parse text false = .ok m ↔ (entries text).length = 16 ∧ ∃ codes : List Int,
      List.Forall₂ Writes (entries text) codes ∧ codes.Nodup ∧ m = codes.zip Key.all) ∧
    (∀ e, parse text false = .error e ↔
      ((entries text).length ≠ 16 ∧ e = .wrongCount (entries text).length) ∨
      (((entries text).length = 16 ∧ ∃ entry ∈ entries text, ∀ c, ¬Writes entry c) ∧
        e = .notIntegers) ∨
      (((entries text).length = 16 ∧ ∃ codes : List Int,
        List.Forall₂ Writes (entries text) codes ∧ ¬codes.Nodup) ∧ e = .repeated)) ∧
    (parse text false = (codes? text).bind fun codes =>
      if (enterAll [] (codes.zip Key.all)).length = 16 then .ok (enterAll [] (codes.zip Key.all))
      else .error .repeated) ∧
    (∀ m codes, parse text false = .ok m → List.Forall₂ Writes (entries text) codes →
      (m.length = 16 ∧ m.map Prod.fst = codes ∧ codes.Nodup ∧ m.map Prod.snd = Key.all) ∧
        ∀ (c : Int) (k : Key), m.key? c = some k ↔ codes[k.val]? = some c) ∧
    ∀ codes : List Int, codes.length = 16 → codes.Nodup →
      (∀ c ∈ codes, (Nat.toDigits 10 c.natAbs).length ≤ 4300) →
      ∃ m, parse (",".intercalate (codes.map toString)) false = .ok m ∧
        ∀ (c : Int) (k : Key), m.key? c = some k ↔ codes[k.val]? = some c := by
  have hcodes (codes : List Int) : codes? text = .ok codes ↔
      (entries text).length = 16 ∧ List.Forall₂ Writes (entries text) codes := by
    simp only [codes?_eq_ok_iff, integer?_eq_some_iff_writes]
  refine ⟨fun m => ?_, fun e => ?_, parse_plain_eq_enterAll, fun m codes hm hw => ?_,
    fun codes hlength hn hdigits => ?_⟩
  · rw [parse_plain_eq_ok_iff]
    simp only [hcodes, and_assoc, exists_and_left]
    rfl
  · rw [parse_plain_eq_error_iff, codes?_eq_error_iff, or_assoc]
    simp only [hcodes, integer?_eq_none_iff_writes, and_assoc, exists_and_left]
  · obtain ⟨codes', hc, hn, rfl⟩ := (parse_plain_eq_ok_iff m).1 hm
    have hlength := length_of_codes? hc
    cases hc.symm.trans ((hcodes codes).2 ⟨((hcodes codes').1 hc).1, hw⟩)
    refine ⟨⟨length_ofCodes hlength, ofCodes_fst hlength, hn, ?_⟩, fun c k => key?_ofCodes hn⟩
    exact List.map_snd_zip (by rw [hlength]; rfl)
  · exact ⟨_, (parse_plain_eq_ok_iff _).2 ⟨codes, codes?_of_toString hlength hdigits, hn, rfl⟩,
      fun c k => key?_ofCodes hn⟩

/-- Integers below zero, zero, and integers beyond every machine word are codes as well. -/
theorem parse_plain_outcomes_of_wide_codes :
    let codes : List Int := (List.range 16).map fun (k : Nat) => 12345678901234567890 * ((k : Int) - 7)
    (codes.length = 16 ∧ codes.Nodup ∧ ∀ c ∈ codes, (Nat.toDigits 10 c.natAbs).length ≤ 4300) ∧
      ∃ m, parse (",".intercalate (codes.map toString)) false = .ok m ∧
        m.key? (-86419752308641975230) = some 0 ∧ m.key? 0 = some 7 := by
  intro codes
  have hlength : codes.length = 16 := rfl
  have hn : codes.Nodup := by decide +kernel
  have hdigits : ∀ c ∈ codes, (Nat.toDigits 10 c.natAbs).length ≤ 4300 := by decide +kernel
  refine ⟨⟨hlength, hn, hdigits⟩, ?_⟩
  obtain ⟨m, hm, hkey⟩ := (parse_plain_outcomes "").2.2.2.2 codes hlength hn hdigits
  exact ⟨m, hm, (hkey _ 0).2 rfl, (hkey _ 7).2 rfl⟩

end Keymap

end Chip8
