import Chip8.Proofs.Controls.Keymaps
import Chip8.Proofs.Text.Entries

/-!
# Texts of keymaps

A text is read as a keymap in stages: its entries are counted, read as integers, put in lower case, and
compared.  Each stage either succeeds entry by entry (`List.Forall₂`) or stops at the first entry that
fails, so that for every text there is one outcome.  `Keymap.parse_lower_outcomes` says which.
A code has a lower case form of one character iff `Text.HasLower` holds of it.
-/

namespace Chip8

/-! ### Codes with a lower case -/

namespace Text

/-- Whether an integer is the code point of a character whose lower case form is one character. -/
def HasLower (c : Int) : Prop := (0 ≤ c ∧ c ≤ 0x10FFFF) ∧ c ≠ 0x130

instance (c : Int) : Decidable (HasLower c) :=
  inferInstanceAs (Decidable ((0 ≤ c ∧ c ≤ 0x10FFFF) ∧ c ≠ 0x130))

theorem lowerCode_of_hasLower {c : Int} (h : HasLower c) :
    lowerCode c = .ok (simpleLower c.toNat) := by
  obtain ⟨⟨hlow, hhigh⟩, hne⟩ := h
  have hform : lowerForm c.toNat = [simpleLower c.toNat] :=
    if_neg (by rw [dottedCapitalI]; omega)
  rw [lowerCode, if_neg (by omega), if_neg (by omega), hform]

/-- Why a code has no lower case of one character. -/
theorem lowerCode_eq_error_iff (c : Int) (f : CodeFault) :
    lowerCode c = .error f ↔
      (f = .tooWide ∧ (c < -2147483648 ∨ 2147483648 ≤ c)) ∨
      (f = .notACodePoint ∧ ((-2147483648 ≤ c ∧ c < 0) ∨ (0x10FFFF < c ∧ c < 2147483648))) ∨
      (f = .severalCharacters ∧ c = 0x130) := by
  by_cases hwide : c < -2147483648 ∨ 2147483648 ≤ c
  · rw [lowerCode, if_pos hwide]
    cases f <;> simp <;> omega
  · by_cases hpoint : c < 0 ∨ 0x10FFFF < c
    · rw [lowerCode, if_neg hwide, if_pos hpoint]
      cases f <;> simp <;> omega
    · by_cases hseveral : c = 0x130
      · subst hseveral
        cases f <;> decide
      · rw [lowerCode_of_hasLower ⟨by omega, hseveral⟩]
        cases f <;> simp <;> omega

theorem hasLower_iff (c : Int) : HasLower c ↔ ∃ l, lowerCode c = .ok l := by
  constructor
  · exact fun h => ⟨_, lowerCode_of_hasLower h⟩
  · rintro ⟨l, hl⟩
    by_contra hno
    have herror (f : CodeFault) : lowerCode c ≠ .error f := fun h => nomatch hl.symm.trans h
    simp only [ne_eq, lowerCode_eq_error_iff] at herror
    have h₁ := herror .tooWide
    have h₂ := herror .notACodePoint
    have h₃ := herror .severalCharacters
    simp only [true_and, reduceCtorEq, false_and, or_false, false_or] at h₁ h₂ h₃
    exact hno ⟨by omega, h₃⟩

end Text

open Text

namespace Keymap

/-- The entries of a text with commas between them. -/
def entries (text : String) : List (List Char) := text.toList.splitOn ','

variable {text : String} {codes lowered : List Int}

/-! ### The stages -/

theorem codes?_of_count (h : (entries text).length ≠ 16) :
    codes? text = .error (.wrongCount (entries text).length) :=
  if_pos h

theorem codes?_of_length (h : (entries text).length = 16) :
    codes? text =
      match (entries text).mapM (integer? .ten) with
      | none => .error .notIntegers
      | some codes => .ok codes :=
  if_neg (not_not.2 h)

theorem codes?_eq_ok_iff :
    codes? text = .ok codes ↔ (entries text).length = 16 ∧
      List.Forall₂ (fun entry c => integer? .ten entry = some c) (entries text) codes := by
  rw [← mapM_eq_some_iff]
  by_cases hlen : (entries text).length = 16
  · rw [codes?_of_length hlen]
    cases (entries text).mapM (integer? .ten) <;> simp [hlen]
  · simp [codes?_of_count hlen, hlen]

theorem codes?_eq_error_iff (e : Error) :
    codes? text = .error e ↔
      ((entries text).length ≠ 16 ∧ e = .wrongCount (entries text).length) ∨
      (((entries text).length = 16 ∧ ∃ entry ∈ entries text, integer? .ten entry = none) ∧
        e = .notIntegers) := by
  rw [← mapM_eq_none_iff]
  by_cases hlen : (entries text).length = 16
  · rw [codes?_of_length hlen]
    cases (entries text).mapM (integer? .ten) <;> simp [hlen, eq_comm]
  · simp [codes?_of_count hlen, hlen, eq_comm]

theorem length_of_codes? (h : codes? text = .ok codes) : codes.length = 16 := by
  obtain ⟨hlen, hread⟩ := codes?_eq_ok_iff.1 h
  exact hread.length_eq.symm.trans hlen

theorem lowerCodes_eq_error_iff (e : Error) :
    lowerCodes codes = .error e ↔ ∃ before code rest f, codes = before ++ code :: rest ∧
      (∀ c ∈ before, HasLower c) ∧ lowerCode code = .error f ∧ e = .code f := by
  have hok (c : Int) : (∃ l, (lowerCode c).mapError Error.code = .ok l) ↔ HasLower c := by
    rw [hasLower_iff]
    cases lowerCode c <;> simp [Except.mapError]
  have herror (c : Int) : (lowerCode c).mapError Error.code = .error e ↔
      ∃ f, lowerCode c = .error f ∧ e = .code f := by
    cases lowerCode c <;> simp [Except.mapError, eq_comm]
  simp only [lowerCodes, mapM_eq_error_iff, hok, herror, exists_and_left]

/-- The outcome of reading a text in lower case, stage by stage. -/
theorem parse_lower_eq_iff (r : Except Error Keymap) :
    parse text true = r ↔
      (∃ e, codes? text = .error e ∧ r = .error e) ∨
      ∃ codes, codes? text = .ok codes ∧
        ((∃ e, lowerCodes codes = .error e ∧ r = .error e) ∨
          ∃ lowered, lowerCodes codes = .ok lowered ∧
            r = if lowered.Nodup then .ok (ofCodes lowered) else .error .repeated) := by
  cases hc : codes? text with
  | error e => simp [parse_of_error hc, eq_comm]
  | ok codes =>
    rw [parse_of_codes hc]
    cases hl : lowerCodes codes <;> simp [Except.bind, hl, eq_comm]

/-- A text that is not one of sixteen integers is refused before anything is put in lower case. -/
theorem parse_lower_eq_error_of_codes (e : Error) (he : ∀ f, e ≠ .code f) (hr : e ≠ .repeated) :
    parse text true = .error e ↔ codes? text = .error e := by
  rw [parse_lower_eq_iff]
  constructor
  · rintro (⟨e', hc, h⟩ | ⟨codes, -, ⟨e', hl, h⟩ | ⟨lowered, -, h⟩⟩)
    · cases h
      exact hc
    · cases h
      obtain ⟨-, -, -, f, -, -, -, rfl⟩ := (lowerCodes_eq_error_iff e).1 hl
      exact absurd rfl (he f)
    · split at h
      · cases h
      · cases h
        exact absurd rfl hr
  · exact fun hc => Or.inl ⟨e, hc, rfl⟩

theorem parse_lower_eq_code_iff (f : CodeFault) :
    parse text true = .error (.code f) ↔ ∃ before code rest,
      codes? text = .ok (before ++ code :: rest) ∧ (∀ c ∈ before, HasLower c) ∧
        lowerCode code = .error f := by
  rw [parse_lower_eq_iff]
  constructor
  · rintro (⟨e, hc, h⟩ | ⟨codes, hc, ⟨e, hl, h⟩ | ⟨lowered, -, h⟩⟩)
    · cases h
      simp [codes?_eq_error_iff] at hc
    · cases h
      obtain ⟨before, code, rest, f', rfl, hbefore, hcode, hf⟩ := (lowerCodes_eq_error_iff _).1 hl
      cases hf
      exact ⟨before, code, rest, hc, hbefore, hcode⟩
    · split at h <;> cases h
  · rintro ⟨before, code, rest, hc, hbefore, hcode⟩
    exact Or.inr ⟨_, hc, Or.inl ⟨_, (lowerCodes_eq_error_iff _).2
      ⟨before, code, rest, f, rfl, hbefore, hcode, rfl⟩, rfl⟩⟩

theorem parse_lower_eq_repeated_iff :
    parse text true = .error .repeated ↔ ∃ codes lowered, codes? text = .ok codes ∧
      List.Forall₂ (fun c l => lowerCode c = .ok l) codes lowered ∧ ¬lowered.Nodup := by
  simp only [← lowerCodes_eq_ok_iff]
  rw [parse_lower_eq_iff]
  constructor
  · rintro (⟨e, hc, h⟩ | ⟨codes, hc, ⟨e, hl, h⟩ | ⟨lowered, hl, h⟩⟩)
    · cases h
      simp [codes?_eq_error_iff] at hc
    · cases h
      simp [lowerCodes_eq_error_iff] at hl
    · refine ⟨codes, lowered, hc, hl, fun hn => ?_⟩
      rw [if_pos hn] at h
      cases h
  · rintro ⟨codes, lowered, hc, hl, hn⟩
    exact Or.inr ⟨codes, hc, Or.inr ⟨lowered, hl, (if_neg hn).symm⟩⟩

theorem parse_lower_eq_ok_iff (m : Keymap) :
    parse text true = .ok m ↔ ∃ codes lowered, codes? text = .ok codes ∧
      List.Forall₂ (fun c l => lowerCode c = .ok l) codes lowered ∧ lowered.Nodup ∧
        m = ofCodes lowered := by
  simp only [← lowerCodes_eq_ok_iff]
  constructor
  · exact parse_lower_eq_ok
  · rintro ⟨codes, lowered, hc, hl, hn, rfl⟩
    exact (parse_lower_eq_iff _).2 (Or.inr ⟨codes, hc, Or.inr ⟨lowered, hl, (if_pos hn).symm⟩⟩)

/-! ### The keymap of lowered codes -/

theorem ofCodes_fst (h : lowered.length = 16) : (ofCodes lowered).map Prod.fst = lowered :=
  List.map_fst_zip (Nat.le_of_eq h)

theorem length_ofCodes (h : lowered.length = 16) : (ofCodes lowered).length = 16 := by
  rw [← List.length_map Prod.fst, ofCodes_fst h, h]

/-- In lower case every text has one of five outcomes: three refusals in words, one without words for the
first entry at fault, or the keymap that takes the lower case of each entry to its key. -/
theorem parse_lower_outcomes (text : String) :
    (∀ codes, codes? text = .ok codes ↔ (entries text).length = 16 ∧
      List.Forall₂ (fun entry c => integer? .ten entry = some c) (entries text) codes) ∧
    (∀ n, parse text true = .error (.wrongCount n) ↔ (entries text).length ≠ 16 ∧
      n = (entries text).length) ∧
    (parse text true = .error .notIntegers ↔
      (entries text).length = 16 ∧ ∃ entry ∈ entries text, integer? .ten entry = none) ∧
    (∀ f, parse text true = .error (.code f) ↔ ∃ before code rest,
      codes? text = .ok (before ++ code :: rest) ∧ (∀ c ∈ before, HasLower c) ∧
        ((f = .tooWide ∧ (code < -2147483648 ∨ 2147483648 ≤ code)) ∨
          (f = .notACodePoint ∧
            ((-2147483648 ≤ code ∧ code < 0) ∨ (0x10FFFF < code ∧ code < 2147483648))) ∨
          (f = .severalCharacters ∧ code = 0x130))) ∧
    (parse text true = .error .repeated ↔ ∃ codes lowered, codes? text = .ok codes ∧
      List.Forall₂ (fun c l => lowerCode c = .ok l) codes lowered ∧ ¬lowered.Nodup) ∧
    (∀ m, parse text true = .ok m ↔ ∃ codes lowered, codes? text = .ok codes ∧
      List.Forall₂ (fun c l => lowerCode c = .ok l) codes lowered ∧ lowered.Nodup ∧
        m = lowered.zip Key.all) ∧
    ∀ m codes, parse text true = .ok m → codes? text = .ok codes →
      m.length = 16 ∧ (m.map Prod.fst).Nodup ∧
        ∀ k : Key, ∃ code l, codes[k.val]? = some code ∧ lowerCode code = .ok l ∧
          m.key? l = some k := by
  refine ⟨fun _ => codes?_eq_ok_iff, fun n => ?_, ?_, fun f => ?_, parse_lower_eq_repeated_iff,
    fun m => parse_lower_eq_ok_iff m, ?_⟩
  · rw [parse_lower_eq_error_of_codes (.wrongCount n) nofun nofun, codes?_eq_error_iff]
    simp
  · rw [parse_lower_eq_error_of_codes .notIntegers nofun nofun, codes?_eq_error_iff]
    simp
  · simp only [parse_lower_eq_code_iff, lowerCode_eq_error_iff]
  · intro m codes hm hc
    obtain ⟨codes', lowered, hc', hl, hn, rfl⟩ := (parse_lower_eq_ok_iff m).1 hm
    cases hc.symm.trans hc'
    have hlen := length_of_codes? hc
    have hlen' : lowered.length = 16 := hl.length_eq.symm.trans hlen
    refine ⟨length_ofCodes hlen', by rwa [ofCodes_fst hlen'], fun k => ?_⟩
    have hk : k.val < codes.length := Nat.lt_of_lt_of_eq k.lt hlen.symm
    have hcode : codes[k.val]? = some (codes.get ⟨k.val, hk⟩) := List.getElem?_eq_getElem hk
    have hlower := hl.get hk (Nat.lt_of_lt_of_eq k.lt hlen'.symm)
    exact ⟨_, _, hcode, hlower, (key?_eq_some_iff hm hc).2 ⟨_, hcode, hlower⟩⟩

/-- A code below zero is refused without words. -/
theorem parse_of_negative_code :
    let text := "-1,49,50,51,113,119,101,97,115,100,122,99,52,114,102,118"
    parse text true = .error (.code .notACodePoint) ∧
      ¬((∃ m, parse text true = .ok m) ∨ (∃ n, parse text true = .error (.wrongCount n)) ∨
        parse text true = .error .notIntegers ∨ parse text true = .error .repeated) := by
  intro text
  have h : parse text true = .error (.code .notACodePoint) := by decide +kernel
  refine ⟨h, ?_⟩
  rw [h]
  simp

end Keymap

end Chip8
