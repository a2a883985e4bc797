import Chip8.Display.Palette
import Chip8.Proofs.Text.Numerals

/-!
# Texts of palettes

An entry of a palette is read as an integer in base sixteen, whatever numeral of six characters it is
(`Palette.Reads`): six hexadecimal digits (`Palette.IsColour`), but also fewer of them with a sign, a
mark of the base, underscores or blanks.  `Palette.parse_outcomes` says for every text whether it is a
palette and why not, and that colours written in six digits each are read back.
-/

namespace Chip8

open Text

/-- The bytes of a colour are those of its number, the most significant first. -/
theorem Colour.bytes_ofNat {n : Nat} (h : n < 16777216) :
    (Colour.ofNat n).bytes.map UInt8.toNat = [n / 65536, n / 256 % 256, n % 256] := by
  simp only [bytes, ofNat, List.map_cons, List.map_nil, UInt8.toNat_ofNat', Nat.reducePow,
    List.cons.injEq, and_true]
  omega

namespace Palette

/-- The entries of a text with commas between them. -/
def entries (text : String) : List (List Char) := text.toList.splitOn ','

/-- Whether an entry is a numeral of six characters that writes an integer in base sixteen. -/
def Reads (cs : List Char) (n : Int) : Prop :=
  cs.length = 6 ∧ ∃ s : Numeral .sixteen, cs.map plainChar = s.text ∧ s.value = n

/-- Whether an entry is six hexadecimal digits. -/
def IsColour (cs : List Char) : Prop := cs.length = 6 ∧ ∀ c ∈ cs, c.isHexDigit = true

/-- The number that hexadecimal digits in lower or upper case write. -/
def number (cs : List Char) : Nat := value (cs.map Char.toLower)

/-- The palette of colours that are given in order; one that is missing keeps the standard colour. -/
def ofColours (cs : List Colour) : Palette := ⟨cs.getD 0 standard.unlit, cs.getD 1 standard.lit⟩

/-! ### Entries -/

theorem entry_eq_ok_iff {cs : List Char} {n : Int} : entry cs = .ok n ↔ Reads cs n := by
  rw [Reads, ← integer?_eq_some_iff, entry]
  by_cases hlen : cs.length = 6
  · rw [if_neg (not_not.2 hlen)]
    cases integer? .sixteen cs <;> simp [hlen]
  · simp [hlen]

theorem entry_eq_error_iff {cs : List Char} {e : Error} :
    entry cs = .error e ↔ (cs.length ≠ 6 ∧ e = .wrongLength (String.ofList cs)) ∨
      ((cs.length = 6 ∧ ¬∃ n, Reads cs n) ∧ e = .notHex (String.ofList cs)) := by
  simp only [Reads, ← integer?_eq_some_iff, entry]
  by_cases hlen : cs.length = 6
  · rw [if_neg (not_not.2 hlen)]
    cases integer? .sixteen cs <;> simp [hlen, eq_comm]
  · simp [hlen, eq_comm]

/-- Six hexadecimal digits are read as the number that they write. -/
theorem reads_of_isColour {cs : List Char} (h : IsColour cs) : Reads cs (number cs) := by
  have hne : cs ≠ [] := List.ne_nil_of_length_eq_add_one h.1
  exact ⟨h.1, integer?_eq_some_iff.1 (integer?_of_hexDigits hne h.2)⟩

theorem mapM_colour (ns : List Int) :
    ns.mapM colour =
      if ∃ n ∈ ns, n < 0 then .error .belowZero
      else .ok (ns.map fun n => Colour.ofNat n.toNat) := by
  induction ns with
  | nil => rfl
  | cons n ns ih =>
    rw [List.mapM_cons, ih, colour]
    by_cases hn : n < 0
    · simp [hn, bind, Except.bind]
    · by_cases hns : ∃ k ∈ ns, k < 0 <;> simp [hn, hns, bind, Except.bind, pure, Except.pure]

/-! ### The stages -/

/-- Entries are counted, then all are read, and then all become colours. -/
theorem parse_eq (text : String) :
    parse text =
      if 2 < (entries text).length then .error .tooMany
      else (entries text).mapM entry >>= fun ns =>
        ns.mapM colour >>= fun cs => .ok (ofColours cs) := by
  have hne : text.toList.splitOn ',' ≠ [] := List.splitOn_ne_nil ',' text.toList
  rw [parse, entries]
  rcases hsplit : text.toList.splitOn ',' with _ | ⟨unlit, _ | ⟨lit, _ | ⟨more, rest⟩⟩⟩
  · exact absurd hsplit hne
  · cases hu : entry unlit with
    | error e => simp [hu, bind, Except.bind]
    | ok n => cases hc : colour n <;> simp [hu, hc, bind, Except.bind, pure, Except.pure, ofColours]
  · cases hu : entry unlit with
    | error e => simp [hu, bind, Except.bind]
    | ok n =>
      cases hl : entry lit with
      | error e => simp [hu, hl, bind, Except.bind]
      | ok k =>
        cases hc : colour n with
        | error e => simp [hu, hl, hc, bind, Except.bind, pure, Except.pure]
        | ok c =>
          cases hc' : colour k <;>
            simp [hu, hl, hc, hc', bind, Except.bind, pure, Except.pure, ofColours]
  · simp

variable {text : String}

theorem parse_of_many (h : 2 < (entries text).length) : parse text = .error .tooMany := by
  rw [parse_eq, if_pos h]

theorem parse_of_few (h : (entries text).length ≤ 2) :
    parse text = (entries text).mapM entry >>= fun ns =>
      if ∃ n ∈ ns, n < 0 then .error .belowZero
      else .ok (ofColours (ns.map fun n => Colour.ofNat n.toNat)) := by
  rw [parse_eq, if_neg (Nat.not_lt.2 h)]
  congr 1
  funext ns
  rw [mapM_colour]
  split <;> rfl

/-- The outcome of reading a text, stage by stage. -/
theorem parse_eq_iff (r : Except Error Palette) :
    parse text = r ↔
      (2 < (entries text).length ∧ r = .error .tooMany) ∨
      ((entries text).length ≤ 2 ∧ ∃ e, (entries text).mapM entry = .error e ∧ r = .error e) ∨
      ((entries text).length ≤ 2 ∧ ∃ ns, List.Forall₂ Reads (entries text) ns ∧
        r = if ∃ n ∈ ns, n < 0 then .error .belowZero
          else .ok (ofColours (ns.map fun n => Colour.ofNat n.toNat))) := by
  have hreads (ns : List Int) :
      List.Forall₂ Reads (entries text) ns ↔ (entries text).mapM entry = .ok ns := by
    simp only [mapM_eq_ok_iff, entry_eq_ok_iff]
  simp only [hreads]
  by_cases hlen : 2 < (entries text).length
  · simp [parse_of_many hlen, hlen, Nat.not_le.2 hlen, eq_comm]
  · have hle := Nat.not_lt.1 hlen
    rw [parse_of_few hle]
    cases hm : (entries text).mapM entry with
    | error e => simp [hlen, hle, bind, Except.bind, eq_comm]
    | ok ns => simp [hlen, hle, bind, Except.bind, eq_comm]

/-! ### Outcomes -/

/-- What is said of the first entry that is not read. -/
theorem mapM_entry_eq_error_iff (e : Error) :
    (entries text).mapM entry = .error e ↔ ∃ before cs rest, entries text = before ++ cs :: rest ∧
      (∀ b ∈ before, ∃ n, Reads b n) ∧
        ((cs.length ≠ 6 ∧ e = .wrongLength (String.ofList cs)) ∨
          ((cs.length = 6 ∧ ¬∃ n, Reads cs n) ∧ e = .notHex (String.ofList cs))) := by
  simp only [mapM_eq_error_iff, entry_eq_ok_iff, entry_eq_error_iff]

theorem parse_eq_tooMany_iff : parse text = .error .tooMany ↔ 2 < (entries text).length := by
  constructor
  · intro h
    by_contra hlen
    rcases (parse_eq_iff _).1 h with ⟨hmany, -⟩ | ⟨-, e, he, h⟩ | ⟨-, ns, -, h⟩
    · exact hlen hmany
    · cases h
      simp [mapM_entry_eq_error_iff] at he
    · split at h <;> cases h
  · exact parse_of_many

/-- A text is refused for an entry iff reading stops there. -/
theorem parse_eq_error_of_entry (e : Error) (hm : e ≠ .tooMany) (hz : e ≠ .belowZero) :
    parse text = .error e ↔ (entries text).length ≤ 2 ∧ (entries text).mapM entry = .error e := by
  rw [parse_eq_iff]
  constructor
  · rintro (⟨-, h⟩ | ⟨hlen, e', he, h⟩ | ⟨-, ns, -, h⟩)
    · cases h
      exact absurd rfl hm
    · cases h
      exact ⟨hlen, he⟩
    · split at h <;> cases h
      exact absurd rfl hz
  · rintro ⟨hlen, he⟩
    exact Or.inr (Or.inl ⟨hlen, e, he, rfl⟩)

theorem parse_eq_belowZero_iff :
    parse text = .error .belowZero ↔ (entries text).length ≤ 2 ∧
      ∃ ns, List.Forall₂ Reads (entries text) ns ∧ ∃ n ∈ ns, n < 0 := by
  rw [parse_eq_iff]
  constructor
  · rintro (⟨-, h⟩ | ⟨-, e', he, h⟩ | ⟨hlen, ns, hns, h⟩)
    · cases h
    · cases h
      simp [mapM_entry_eq_error_iff] at he
    · split at h
      · next hneg => exact ⟨hlen, ns, hns, hneg⟩
      · cases h
  · rintro ⟨hlen, ns, hns, hneg⟩
    exact Or.inr (Or.inr ⟨hlen, ns, hns, (if_pos hneg).symm⟩)

theorem parse_eq_ok_iff (p : Palette) :
    parse text = .ok p ↔ (entries text).length ≤ 2 ∧ ∃ ns : List Nat,
      List.Forall₂ (fun cs (n : Nat) => Reads cs n) (entries text) ns ∧
        p = ofColours (ns.map Colour.ofNat) := by
  rw [parse_eq_iff]
  constructor
  · rintro (⟨-, h⟩ | ⟨-, e', -, h⟩ | ⟨hlen, ns, hns, h⟩)
    · cases h
    · cases h
    · split at h
      · cases h
      · next hneg =>
        cases h
        have hcast : (ns.map Int.toNat).map (fun (n : Nat) => (n : Int)) = ns := by
          rw [List.map_map]
          refine (List.map_congr_left fun n hn => ?_).trans ns.map_id
          exact Int.toNat_of_nonneg (Int.not_lt.1 fun hlt => hneg ⟨n, hn, hlt⟩)
        refine ⟨hlen, ns.map Int.toNat, ?_, by rw [List.map_map]; rfl⟩
        rw [← hcast] at hns
        exact List.forall₂_map_right_iff.1 hns
  · rintro ⟨hlen, ns, hns, rfl⟩
    refine Or.inr (Or.inr ⟨hlen, ns.map fun (n : Nat) => (n : Int), ?_, ?_⟩)
    · rwa [List.forall₂_map_right_iff]
    · rw [if_neg (by simp), List.map_map]
      rfl

/-! ### Six digits -/

theorem isColour_hexChars {n : Nat} (h : n < 16777216) :
    IsColour (hexChars 6 n) ∧ number (hexChars 6 n) = n := by
  have hdigit (c : Char) (hc : c ∈ hexChars 6 n) : c.isHexDigit = true ∧ c.toLower = c :=
    of_isHexDigit (isHexDigit_of_mem_hexChars hc)
  refine ⟨⟨length_hexChars (by decide) h, fun c hc => (hdigit c hc).1⟩, ?_⟩
  have hlower : (hexChars 6 n).map Char.toLower = hexChars 6 n :=
    (List.map_congr_left fun c hc => (hdigit c hc).2).trans (List.map_id _)
  rw [number, hlower, value_hexChars]

theorem comma_notMem_of_isColour {cs : List Char} (h : IsColour cs) : ',' ∉ cs :=
  fun hmem => absurd (h.2 ',' hmem) (by decide)

theorem entries_pair {cs cs' : List Char} (h : IsColour cs) (h' : IsColour cs') :
    entries (String.ofList cs ++ "," ++ String.ofList cs') = [cs, cs'] := by
  have hjoin : (String.ofList cs ++ "," ++ String.ofList cs').toList = [','].intercalate [cs, cs'] := by
    simp [List.intercalate_cons_cons]
  rw [entries, hjoin]
  apply List.splitOn_intercalate ','
  · intro l hl
    simp only [List.mem_cons, List.not_mem_nil, or_false] at hl
    rcases hl with rfl | rfl
    · exact comma_notMem_of_isColour h
    · exact comma_notMem_of_isColour h'
  · exact List.cons_ne_nil _ _

/-- Entries of six hexadecimal digits are read as the colours of their numbers. -/
theorem parse_of_isColour (hlen : (entries text).length ≤ 2) (h : ∀ cs ∈ entries text, IsColour cs) :
    parse text = .ok (ofColours ((entries text).map fun cs => Colour.ofNat (number cs))) := by
  refine (parse_eq_ok_iff _).2 ⟨hlen, (entries text).map number, ?_, by rw [List.map_map]; rfl⟩
  rw [List.forall₂_map_right_iff, List.forall₂_same]
  exact fun cs hcs => reads_of_isColour (h cs hcs)

/-- Only entries of six hexadecimal digits make a palette, and all else is refused in words, unless one
or two numerals have another one among them. -/
theorem only_colours_iff :
    (((∃ p, parse text = .ok p) ↔ (entries text).length ≤ 2 ∧ ∀ cs ∈ entries text, IsColour cs) ∧
        parse text ≠ .error .belowZero) ↔
      ((entries text).length ≤ 2 → (∀ cs ∈ entries text, ∃ n, Reads cs n) →
        ∀ cs ∈ entries text, IsColour cs) := by
  constructor
  · rintro ⟨honly, hzero⟩ hlen hreads
    rcases (parse_eq_iff (parse text)).1 rfl with ⟨hmany, -⟩ | ⟨-, e, he, -⟩ | ⟨-, ns, -, h⟩
    · omega
    · obtain ⟨before, cs, rest, hsplit, -, hcs⟩ := (mapM_entry_eq_error_iff e).1 he
      obtain ⟨n, hn⟩ := hreads cs (by simp [hsplit])
      rcases hcs with ⟨hlength, -⟩ | ⟨⟨-, hnone⟩, -⟩
      · exact absurd hn.1 hlength
      · exact absurd ⟨n, hn⟩ hnone
    · split at h
      · exact absurd h hzero
      · exact (honly.1 ⟨_, h⟩).2
  · intro hcolour
    refine ⟨⟨?_, fun ⟨hlen, h⟩ => ⟨_, parse_of_isColour hlen h⟩⟩, fun hzero => ?_⟩
    · rintro ⟨p, hp⟩
      obtain ⟨hlen, ns, hns, -⟩ := (parse_eq_ok_iff p).1 hp
      exact ⟨hlen, hcolour hlen fun cs hcs => (exists_of_forall₂ hns cs hcs).imp' _ fun _ h => h⟩
    · obtain ⟨hlen, ns, hns, -⟩ := parse_eq_belowZero_iff.1 hzero
      rw [parse_of_isColour hlen (hcolour hlen (exists_of_forall₂ hns))] at hzero
      cases hzero

/-- What a text comes to: a refusal in words or without, for the first entry at fault, or the palette of
its numerals, which is of six hexadecimal digits each but for texts with a number of another form. -/
theorem parse_outcomes (text : String) :
    (parse text = .error .tooMany ↔ 2 < (entries text).length) ∧
    (∀ e, parse text = .error (.wrongLength e) ↔ (entries text).length ≤ 2 ∧
      ∃ before cs rest, entries text = before ++ cs :: rest ∧ (∀ b ∈ before, ∃ n, Reads b n) ∧
        cs.length ≠ 6 ∧ e = String.ofList cs) ∧
    (∀ e, parse text = .error (.notHex e) ↔ (entries text).length ≤ 2 ∧
      ∃ before cs rest, entries text = before ++ cs :: rest ∧ (∀ b ∈ before, ∃ n, Reads b n) ∧
        (cs.length = 6 ∧ ¬∃ n, Reads cs n) ∧ e = String.ofList cs) ∧
    (parse text = .error .belowZero ↔ (entries text).length ≤ 2 ∧
      ∃ ns, List.Forall₂ Reads (entries text) ns ∧ ∃ n ∈ ns, n < 0) ∧
    (∀ p, parse text = .ok p ↔ (entries text).length ≤ 2 ∧ ∃ ns : List Nat,
      List.Forall₂ (fun cs (n : Nat) => Reads cs n) (entries text) ns ∧
        p = ofColours (ns.map Colour.ofNat)) ∧
    ((entries text).length ≤ 2 → (∀ cs ∈ entries text, IsColour cs) →
      parse text = .ok (ofColours ((entries text).map fun cs => Colour.ofNat (number cs)))) ∧
    ((((∃ p, parse text = .ok p) ↔ (entries text).length ≤ 2 ∧ ∀ cs ∈ entries text, IsColour cs) ∧
        parse text ≠ .error .belowZero) ↔
      ((entries text).length ≤ 2 → (∀ cs ∈ entries text, ∃ n, Reads cs n) →
        ∀ cs ∈ entries text, IsColour cs)) ∧
    ∀ a b : Nat, a < 16777216 → b < 16777216 →
      (IsColour (hexChars 6 a) ∧ number (hexChars 6 a) = a) ∧
      ∀ cs cs', IsColour cs → number cs = a → IsColour cs' → number cs' = b →
        ∃ p, parse (String.ofList cs ++ "," ++ String.ofList cs') = .ok p ∧
          p.unlit.bytes.map UInt8.toNat = [a / 65536, a / 256 % 256, a % 256] ∧
          p.lit.bytes.map UInt8.toNat = [b / 65536, b / 256 % 256, b % 256] := by
  refine ⟨parse_eq_tooMany_iff, fun e => ?_, fun e => ?_, parse_eq_belowZero_iff, parse_eq_ok_iff,
    parse_of_isColour, only_colours_iff, fun a b ha hb => ?_⟩
  · rw [parse_eq_error_of_entry (.wrongLength e) nofun nofun, mapM_entry_eq_error_iff]
    simp
  · rw [parse_eq_error_of_entry (.notHex e) nofun nofun, mapM_entry_eq_error_iff]
    simp
  · refine ⟨isColour_hexChars ha, fun cs cs' hcs hna hcs' hnb => ?_⟩
    have hentries := entries_pair hcs hcs'
    refine ⟨_, parse_of_isColour (by simp [hentries]) (by simp [hentries, hcs, hcs']), ?_, ?_⟩
    · simpa [hentries, ofColours, hna] using Colour.bytes_ofNat ha
    · simpa [hentries, ofColours, hnb] using Colour.bytes_ofNat hb

/-- A numeral with a sign is taken for a colour, or is refused without words. -/
theorem parse_of_sign :
    parse "-12345" = .error .belowZero ∧ parse "+12345" = .ok (ofColours [.ofNat 0x12345]) ∧
      ¬IsColour "-12345".toList ∧ ¬IsColour "+12345".toList := by
  refine ⟨by decide +kernel, by decide +kernel, ?_, ?_⟩
  · exact fun h => absurd (h.2 '-' (by decide)) (by decide)
  · exact fun h => absurd (h.2 '+' (by decide)) (by decide)

end Palette

end Chip8
