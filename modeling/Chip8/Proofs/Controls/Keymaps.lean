import Chip8.Controls.KeyReader
import Chip8.Proofs.Text.Entries

/-!
# Keys that characters stand for

A keymap that was read in lower case gives a character the key whose code has the same lower case, and
no two keys share one (`Keymap.key?_eq_some_iff`).  The characters that ask to quit are the lower case
of themselves only (`Text.lowerCode_mem_quit_iff`), so the reader of keys takes a character for a key
exactly if it stands for it (`KeyReader.item?_eq_key_iff`).
-/

namespace Chip8

/-! ### Lower case -/

namespace Text

/-- Whatever becomes another character in lower case becomes one from `a` on. -/
theorem le_of_mem_caseRuns {r : CaseRun} (h : r ∈ caseRuns) :
    0x41 ≤ r.first ∧ 0x61 ≤ (r.first : Int) + r.shift := by
  have hall : caseRuns.all (fun r => decide (0x41 ≤ r.first ∧ 0x61 ≤ (r.first : Int) + r.shift)) := by
    decide +kernel
  exact of_decide_eq_true (List.all_eq_true.1 hall r h)

theorem simpleLower_cases (c : Nat) :
    simpleLower c = c ∨ (0x41 ≤ c ∧ 0x61 ≤ simpleLower c) := by
  unfold simpleLower
  split
  · next r hr =>
    obtain ⟨hfirst, hshift⟩ := le_of_mem_caseRuns (List.mem_of_find?_eq_some hr)
    have hcovers := List.find?_some hr
    simp only [CaseRun.covers, Bool.and_eq_true, decide_eq_true_eq] at hcovers
    have hle : r.first ≤ c := hcovers.1.1
    right
    omega
  · exact Or.inl rfl

theorem lowerCode_eq_ok {c l : Int} (h : lowerCode c = .ok l) :
    0 ≤ c ∧ l = simpleLower c.toNat := by
  unfold lowerCode at h
  split at h
  · cases h
  · split at h
    · cases h
    · refine ⟨by omega, ?_⟩
      unfold lowerForm at h
      split at h
      · next he =>
        split at he
        · cases he
        · cases he
          cases h
          rfl
      · cases h

theorem lowerCode_of_neg {c : Int} (h : c < 0) : ∃ f, lowerCode c = .error f := by
  cases hl : lowerCode c with
  | error f => exact ⟨f, rfl⟩
  | ok l => exact absurd (lowerCode_eq_ok hl).1 (by omega)

theorem mem_quitCharacters {c : Int} : c ∈ quitCharacters ↔ c = 27 ∨ c = 3 := by
  simp [quitCharacters]

theorem notMem_quit_of_error {c : Int} {f : CodeFault} (h : lowerCode c = .error f) :
    c ∉ quitCharacters := by
  rw [mem_quitCharacters]
  rintro (rfl | rfl)
  · exact nomatch h.symm.trans (rfl : lowerCode 27 = .ok 27)
  · exact nomatch h.symm.trans (rfl : lowerCode 3 = .ok 3)

/-- The characters that ask to quit are the lower case of themselves only. -/
theorem lowerCode_mem_quit_iff {c l : Int} (h : lowerCode c = .ok l) :
    l ∈ quitCharacters ↔ c ∈ quitCharacters := by
  obtain ⟨h₀, rfl⟩ := lowerCode_eq_ok h
  rw [mem_quitCharacters, mem_quitCharacters]
  rcases simpleLower_cases c.toNat with hsame | ⟨hc, hl⟩ <;> omega

end Text

open Text

/-! ### Keymaps -/

namespace Keymap

theorem lookup_zip {α β : Type} [BEq α] [LawfulBEq α] {xs : List α} (hn : xs.Nodup)
    (ys : List β) (x : α) (y : β) :
    (xs.zip ys).lookup x = some y ↔ ∃ i : Nat, xs[i]? = some x ∧ ys[i]? = some y := by
  induction xs generalizing ys with
  | nil => simp
  | cons a xs ih =>
    obtain ⟨ha, hn⟩ := List.nodup_cons.1 hn
    cases ys with
    | nil => simp
    | cons b ys =>
      rw [List.zip_cons_cons]
      by_cases hx : x = a
      · subst hx
        rw [List.lookup_cons_self]
        constructor
        · intro h
          exact ⟨0, rfl, h⟩
        · rintro ⟨i, hi, hy⟩
          cases i with
          | zero => exact hy
          | succ i =>
            rw [List.getElem?_cons_succ] at hi
            exact absurd (List.mem_of_getElem? hi) ha
      · have hne : (x == a) = false := by simpa using hx
        rw [List.lookup_cons, hne]
        show (xs.zip ys).lookup x = some y ↔ _
        rw [ih hn]
        constructor
        · rintro ⟨i, hi⟩
          exact ⟨i + 1, hi⟩
        · rintro ⟨i, hi, hy⟩
          cases i with
          | zero => exact absurd (Option.some.inj hi).symm hx
          | succ i => exact ⟨i, hi, hy⟩

section Parse

variable {text : String} {codes lowered : List Int}

theorem lowerCodes_eq_ok_iff :
    lowerCodes codes = .ok lowered ↔
      List.Forall₂ (fun c l => lowerCode c = .ok l) codes lowered := by
  have hcode (c l : Int) : (lowerCode c).mapError Error.code = .ok l ↔ lowerCode c = .ok l := by
    cases lowerCode c <;> simp [Except.mapError]
  simp only [lowerCodes, mapM_eq_ok_iff, hcode]

theorem lowerCodes_getElem? (h : lowerCodes codes = .ok lowered) (i : Nat) (l : Int) :
    lowered[i]? = some l ↔ ∃ code, codes[i]? = some code ∧ lowerCode code = .ok l := by
  have hall := lowerCodes_eq_ok_iff.1 h
  clear h
  induction hall generalizing i with
  | nil => simp
  | @cons c lc codes lowered hc _ ih =>
    cases i with
    | zero =>
      simp only [List.getElem?_cons_zero, Option.some.injEq, exists_eq_left', hc, Except.ok.injEq]
    | succ i =>
      simp only [List.getElem?_cons_succ]
      exact ih i

theorem parse_of_error {e : Error} (h : codes? text = .error e) (lower : Bool) :
    parse text lower = .error e := by
  rw [parse, h]
  rfl

theorem parse_of_codes (h : codes? text = .ok codes) :
    parse text true = (lowerCodes codes).bind fun lowered =>
      if lowered.Nodup then .ok (ofCodes lowered) else .error .repeated := by
  rw [parse, h]
  rfl

theorem parse_lower_eq_ok {m : Keymap} (h : parse text true = .ok m) :
    ∃ codes lowered, codes? text = .ok codes ∧ lowerCodes codes = .ok lowered ∧ lowered.Nodup ∧
      m = ofCodes lowered := by
  cases hcodes : codes? text with
  | error e => exact nomatch (parse_of_error hcodes true).symm.trans h
  | ok codes =>
    rw [parse_of_codes hcodes] at h
    cases hlowered : lowerCodes codes with
    | error e =>
      rw [hlowered] at h
      cases h
    | ok lowered =>
      rw [hlowered] at h
      replace h : (if lowered.Nodup then Except.ok (ofCodes lowered) else .error Error.repeated) =
        .ok m := h
      split at h
      · next hn =>
        cases h
        exact ⟨codes, lowered, rfl, hlowered, hn, rfl⟩
      · cases h

/-- A keymap is read as it is written iff its codes are read and differ. -/
theorem parse_plain_eq_ok_iff (m : Keymap) :
    parse text false = .ok m ↔ ∃ codes, codes? text = .ok codes ∧ codes.Nodup ∧ m = ofCodes codes := by
  rw [parse]
  cases hc : codes? text with
  | error e => exact iff_of_false nofun (by rintro ⟨codes, hcodes, -⟩; cases hcodes)
  | ok codes =>
    show (if codes.Nodup then Except.ok (ofCodes codes) else .error Error.repeated) = .ok m ↔ _
    split
    · next hn => exact ⟨fun h => ⟨codes, rfl, hn, (Except.ok.inj h).symm⟩, by rintro ⟨_, ⟨⟩, -, rfl⟩; rfl⟩
    · next hn => exact iff_of_false nofun (by rintro ⟨_, ⟨⟩, hn', -⟩; exact hn hn')

end Parse

/-- A host key stands for the key in whose place its code is. -/
theorem key?_ofCodes {codes : List Int} (hn : codes.Nodup) {c : Int} {k : Key} :
    (ofCodes codes).key? c = some k ↔ codes[k.val]? = some c := by
  rw [key?, ofCodes, lookup_zip hn]
  constructor
  · rintro ⟨i, hi, hk⟩
    obtain ⟨hlt, rfl⟩ := List.getElem?_eq_some_iff.1 hk
    simpa [Key.all] using hi
  · intro hi
    exact ⟨k.val, hi, by simp [Key.all]⟩

/-- A lower case character stands for the key whose code has that lower case. -/
theorem key?_eq_some_iff {text : String} {m : Keymap} {codes : List Int}
    (h : parse text true = .ok m) (hc : codes? text = .ok codes) {l : Int} {k : Key} :
    m.key? l = some k ↔ ∃ code, codes[k.val]? = some code ∧ lowerCode code = .ok l := by
  obtain ⟨codes', lowered, hc', hlowered, hn, rfl⟩ := parse_lower_eq_ok h
  cases hc.symm.trans hc'
  rw [key?_ofCodes hn, lowerCodes_getElem? hlowered]

/-- Whether a character stands for a key, given the codes of a keymap as they were written. -/
def StandsFor (codes : List Int) (char : Int) (k : Key) : Prop :=
  char ≠ 27 ∧ char ≠ 3 ∧
    ∃ code l, codes[k.val]? = some code ∧ lowerCode char = .ok l ∧ lowerCode code = .ok l

/-- The key that a character stands for. -/
def keyOf? (codes : List Int) (char : Int) : Option Key :=
  if char = 27 ∨ char = 3 then none
  else (lowerCode char).toOption.bind fun l =>
    Key.all.find? fun k => (codes[k.val]?.bind fun code => (lowerCode code).toOption) == some l

theorem keyOf?_of_mem_quit {codes : List Int} {char : Int} (h : char ∈ quitCharacters) :
    keyOf? codes char = none :=
  if_pos (mem_quitCharacters.1 h)

theorem keyOf?_of_error {codes : List Int} {char : Int} {f : CodeFault}
    (h : lowerCode char = .error f) : keyOf? codes char = none := by
  rw [keyOf?, h]
  exact ite_self _

theorem toOption_lowerCode_eq_some {code l : Int} :
    (lowerCode code).toOption = some l ↔ lowerCode code = .ok l := by
  cases lowerCode code <;> simp [Except.toOption]

theorem standsFor_of_keyOf? {codes : List Int} {char : Int} {k : Key}
    (h : keyOf? codes char = some k) : StandsFor codes char k := by
  unfold keyOf? at h
  split at h
  · cases h
  · next hq =>
    obtain ⟨l, hl, hfind⟩ := Option.bind_eq_some_iff.1 h
    have hsame := List.find?_some hfind
    obtain ⟨code, hcode, hlower⟩ := Option.bind_eq_some_iff.1 (eq_of_beq hsame)
    rw [not_or] at hq
    exact ⟨hq.1, hq.2, code, l, hcode, toOption_lowerCode_eq_some.1 hl,
      toOption_lowerCode_eq_some.1 hlower⟩

theorem isSome_keyOf? {codes : List Int} {char : Int} {k : Key} (h : StandsFor codes char k) :
    (keyOf? codes char).isSome := by
  obtain ⟨h27, h3, code, l, hcode, hl, hlower⟩ := h
  rw [keyOf?, if_neg (not_or.2 ⟨h27, h3⟩), toOption_lowerCode_eq_some.2 hl, Option.bind_some,
    List.find?_isSome]
  exact ⟨k, k.mem_all, by simp [hcode, toOption_lowerCode_eq_some.2 hlower]⟩

section Read

variable {text : String} {m : Keymap} {codes : List Int} {char : Int} {k : Key}

theorem StandsFor.unique (h : parse text true = .ok m) (hc : codes? text = .ok codes) {k' : Key}
    (hk : StandsFor codes char k) (hk' : StandsFor codes char k') : k = k' := by
  obtain ⟨-, -, code, l, hcode, hl, hlower⟩ := hk
  obtain ⟨-, -, code', l', hcode', hl', hlower'⟩ := hk'
  cases hl.symm.trans hl'
  have hkey := (key?_eq_some_iff h hc).2 ⟨code, hcode, hlower⟩
  have hkey' := (key?_eq_some_iff h hc).2 ⟨code', hcode', hlower'⟩
  exact Option.some.inj (hkey.symm.trans hkey')

/-- In a keymap that was read in lower case a character stands for one key at most. -/
theorem keyOf?_eq_some_iff (h : parse text true = .ok m) (hc : codes? text = .ok codes) :
    keyOf? codes char = some k ↔ StandsFor codes char k := by
  constructor
  · exact standsFor_of_keyOf?
  · intro hk
    obtain ⟨k', hk'⟩ := Option.isSome_iff_exists.1 (isSome_keyOf? hk)
    rw [hk', StandsFor.unique h hc (standsFor_of_keyOf? hk') hk]

end Read

end Keymap

namespace KeyReader

variable {text : String} {m : Keymap} {codes : List Int} {char l : Int}

theorem item?_eq_quit_iff (hl : lowerCode char = .ok l) :
    item? m l = some .quit ↔ char ∈ quitCharacters := by
  rw [← lowerCode_mem_quit_iff hl]
  unfold item?
  split
  · next hq => exact iff_of_true rfl hq
  · next hq => exact iff_of_false (by simp) hq

/-- The reader takes a character for a key exactly if it stands for it. -/
theorem item?_eq_key_iff (h : Keymap.parse text true = .ok m) (hc : Keymap.codes? text = .ok codes)
    (hl : lowerCode char = .ok l) {k : Key} :
    item? m l = some (.key k) ↔ Keymap.keyOf? codes char = some k := by
  have hquit := lowerCode_mem_quit_iff hl
  have hkey := Keymap.key?_eq_some_iff h hc (l := l) (k := k)
  unfold item?
  split
  · next hq =>
    rw [Keymap.keyOf?_of_mem_quit (hquit.1 hq)]
    exact iff_of_false (by simp) (by simp)
  · next hq =>
    rw [hquit, mem_quitCharacters, not_or] at hq
    rw [Keymap.keyOf?_eq_some_iff h hc]
    simp only [Option.map_eq_some_iff, QueueItem.key.injEq, exists_eq_right, hkey, Keymap.StandsFor,
      hl, Except.ok.injEq, hq.1, hq.2, ne_eq, not_false_eq_true, true_and]
    constructor
    · rintro ⟨code, hcode, hlower⟩
      exact ⟨code, l, hcode, rfl, hlower⟩
    · rintro ⟨code, _, hcode, rfl, hlower⟩
      exact ⟨code, hcode, hlower⟩

end KeyReader

end Chip8
