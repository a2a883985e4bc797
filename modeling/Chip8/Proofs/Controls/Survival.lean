import Chip8.Proofs.Controls.Handover
import Chip8.Proofs.Controls.KeymapTexts

/-!
# What the reader survives

Whatever a terminal delivers is no larger than the last code point.  Of these characters the reader stops
at the two that ask to quit, and at the one whose lower case is two characters, where it fails
(`KeyReader.StopsAt`, `KeyReader.running_readOne_iff`).  Every other character leaves it running, so it
goes on for as long as it meets none of these and is not told to stop (`Handover.reader_goes_on`).
-/

namespace Chip8

open Text

/-! ### One character -/

namespace KeyReader

variable {r : KeyReader} {char : Int}

/-- Whether the reader stops at a character. -/
def StopsAt (char : Int) : Prop := char ∈ quitCharacters ∨ char = 0x130

instance (char : Int) : Decidable (StopsAt char) :=
  inferInstanceAs (Decidable (char ∈ quitCharacters ∨ char = 0x130))

theorem readOne_of_item {l : Int} {item : QueueItem} (hl : lowerCode char = .ok l)
    (hitem : item? r.keymap l = some item) : r.readOne char = (r.offer item, none) := by
  have hneg : ¬char < 0 := Int.not_lt.2 (lowerCode_eq_ok hl).1
  simp only [readOne, if_neg hneg, hl, hitem]

theorem readOne_of_quit (hq : char ∈ quitCharacters) : r.readOne char = (r.offer .quit, none) := by
  have hlower : HasLower char := by
    rcases mem_quitCharacters.1 hq with rfl | rfl <;> decide
  have hl := lowerCode_of_hasLower hlower
  exact readOne_of_item hl ((item?_eq_quit_iff hl).2 hq)

/-- The reader fails at the character whose lower case is two characters. -/
theorem readOne_of_severalCharacters :
    r.readOne 0x130 = ({ r with running := false }, some .severalCharacters) := rfl

/-- Any other character is passed over, or stands for a key. -/
theorem readOne_of_other (hchar : char ≤ 0x10FFFF) (hs : ¬StopsAt char) :
    r.readOne char = (r, none) ∨
      ∃ l k, lowerCode char = .ok l ∧ item? r.keymap l = some (.key k) := by
  obtain ⟨hquit, hone⟩ := not_or.1 hs
  by_cases hneg : char < 0
  · exact Or.inl (if_pos hneg)
  · obtain ⟨l, hl⟩ := (hasLower_iff char).1 ⟨⟨Int.not_lt.1 hneg, hchar⟩, hone⟩
    cases hitem : item? r.keymap l with
    | none =>
      left
      simp only [readOne, if_neg hneg, hl, hitem]
    | some item =>
      cases item with
      | quit => exact absurd ((item?_eq_quit_iff hl).1 hitem) hquit
      | key k => exact Or.inr ⟨l, k, hl, hitem⟩

theorem running_offer_key (k : Key) : (r.offer (.key k)).running = r.running := by
  cases hfull : r.isFull <;> simp [offer, hfull]

theorem running_offer_quit : (r.offer .quit).running = false := by
  cases hfull : r.isFull <;> simp [offer, hfull]

/-- A character at which the reader does not stop leaves it running, and does not make it fail. -/
theorem readOne_goes_on (hchar : char ≤ 0x10FFFF) (hs : ¬StopsAt char) :
    (r.readOne char).1.running = r.running ∧ (r.readOne char).2 = none := by
  rcases readOne_of_other (r := r) hchar hs with hnone | ⟨l, k, hl, hitem⟩
  · rw [hnone]
    exact ⟨rfl, rfl⟩
  · rw [readOne_of_item hl hitem]
    exact ⟨running_offer_key k, rfl⟩

theorem running_readOne_iff (hchar : char ≤ 0x10FFFF) (hr : r.running = true) :
    (r.readOne char).1.running = true ↔ ¬StopsAt char := by
  by_cases hs : StopsAt char
  · rcases hs with hq | rfl
    · rw [readOne_of_quit hq, running_offer_quit]
      simp [StopsAt, hq]
    · rw [readOne_of_severalCharacters]
      simp [StopsAt]
  · simp [readOne_goes_on hchar hs, hr, hs]

/-- The reader fails at no other character, and for no other reason. -/
theorem fault_readOne_iff (hchar : char ≤ 0x10FFFF) (f : CodeFault) :
    (r.readOne char).2 = some f ↔ char = 0x130 ∧ f = .severalCharacters := by
  by_cases hs : StopsAt char
  · rcases hs with hq | rfl
    · have hne : char ≠ 0x130 := by
        rcases mem_quitCharacters.1 hq with rfl | rfl <;> decide
      rw [readOne_of_quit hq]
      simp [hne]
    · rw [readOne_of_severalCharacters]
      simp [eq_comm]
  · rw [(readOne_goes_on hchar hs).2]
    simp [show char ≠ 0x130 from fun h => hs (Or.inr h)]

/-! ### Characters at once -/

theorem readAll_of_goes_on (hr : r.running = true) (hchar : char ≤ 0x10FFFF) (hs : ¬StopsAt char)
    (chars : List Int) : r.readAll (char :: chars) = (r.readOne char).1.readAll chars := by
  have hread : r.readOne char = ((r.readOne char).1, none) := Prod.ext rfl (readOne_goes_on hchar hs).2
  rw [readAll, if_pos hr, hread]

theorem readAll_of_stops (hr : r.running = true) (hs : StopsAt char) (chars : List Int) :
    r.readAll (char :: chars) = r.readOne char := by
  have hchar : char ≤ 0x10FFFF := by
    rcases hs with hq | rfl
    · rcases mem_quitCharacters.1 hq with rfl | rfl <;> decide
    · decide
  have hstop : (r.readOne char).1.running = false :=
    Bool.eq_false_iff.2 fun h => (running_readOne_iff hchar hr).1 h hs
  rw [readAll, if_pos hr]
  cases hread : r.readOne char with
  | mk r' fault =>
    rw [hread] at hstop
    cases fault with
    | none => exact Handover.readAll_of_stopped hstop chars
    | some f => rfl

/-- Characters behind those at which the reader does not stop are read as if they came first. -/
theorem readAll_append {before : List Int} (hbefore : ∀ c ∈ before, c ≤ 0x10FFFF ∧ ¬StopsAt c)
    (hr : r.running = true) (after : List Int) :
    (r.readAll before).1.running = true ∧
      r.readAll (before ++ after) = (r.readAll before).1.readAll after := by
  induction before generalizing r with
  | nil => exact ⟨hr, rfl⟩
  | cons c before ih =>
    obtain ⟨⟨hchar, hs⟩, hbefore⟩ := List.forall_mem_cons.1 hbefore
    rw [List.cons_append, readAll_of_goes_on hr hchar hs, readAll_of_goes_on hr hchar hs]
    exact ih hbefore ((readOne_goes_on hchar hs).1.trans hr)

/-- Reading fails exactly if the failing character comes before any that asks to quit. -/
theorem fault_readAll_iff {chars : List Int} (hchars : ∀ c ∈ chars, c ≤ 0x10FFFF)
    (hr : r.running = true) (f : CodeFault) :
    (r.readAll chars).2 = some f ↔ f = .severalCharacters ∧
      ∃ before char after, chars = before ++ char :: after ∧ (∀ c ∈ before, ¬StopsAt c) ∧
        char = 0x130 := by
  induction chars generalizing r with
  | nil => simp [readAll]
  | cons c chars ih =>
    obtain ⟨hchar, hchars⟩ := List.forall_mem_cons.1 hchars
    rw [exists_split_cons (Q := fun char => char = 0x130)]
    by_cases hs : StopsAt c
    · rw [readAll_of_stops hr hs, fault_readOne_iff hchar]
      simp [hs, and_comm]
    · have hne : c ≠ 0x130 := fun h => hs (Or.inr h)
      rw [readAll_of_goes_on hr hchar hs, ih hchars ((readOne_goes_on hchar hs).1.trans hr)]
      simp [hs, hne]

end KeyReader

/-! ### The reader among the parties -/

namespace Handover

open KeyReader

variable {τ : Type} {text : String} {m : Keymap} {codes : List Int}

/-- What befalls the parties: one of them has a turn, or the reader is told to stop. -/
inductive Occasion (τ : Type)
  | turn (t : Turn τ)
  | stop

/-- Whether an occasion is the last thing that a reader meets. -/
def Occasion.Ends : Occasion τ → Prop
  | .turn (.read char) => StopsAt char
  | .turn _ => False
  | .stop => True

/-- Whether what is read, if anything, is no larger than the last code point. -/
def Occasion.Possible : Occasion τ → Prop
  | .turn (.read char) => char ≤ 0x10FFFF
  | _ => True

/-- The parties after an occasion. -/
def meet (h : HoldScale τ) (s : Handover τ) : Occasion τ → Handover τ
  | .turn t => s.next h t
  | .stop => s.withReader s.reader.stop

/-- The parties after occasions. -/
def course (h : HoldScale τ) (s : Handover τ) (occasions : List (Occasion τ)) : Handover τ :=
  occasions.foldl (meet h) s

theorem Effect.running_eq {s s' : Handover τ} {t : Turn τ} (he : Effect codes s t s')
    (hread : s.readIn t = []) : s'.reader.running = s.reader.running := by
  cases he with
  | read hr => exact absurd ((readIn_read hr).symm.trans hread) (List.cons_ne_nil _ _)
  | _ => rfl

section Course

variable {h : HoldScale τ} {s : Handover τ}
variable (hm : Keymap.parse text true = .ok m) (hc : Keymap.codes? text = .ok codes)
include hm hc

theorem inv_meet (hi : s.Inv m) (o : Occasion τ) : (s.meet h o).Inv m := by
  cases o with
  | turn t => exact (effect_next h hm hc hi t).inv hi
  | stop =>
    have hone : 0 + s.quits ≤ 1 := (Nat.zero_add s.quits).symm ▸ hi.quits_le
    exact ⟨hi.keymap_eq, hi.length_le, hi.quit_last, hone⟩

/-- Every occasion leaves a reader running, except those that end the reading. -/
theorem running_meet (hi : s.Inv m) {o : Occasion τ} (ho : o.Possible) :
    (s.meet h o).reader.running = true ↔ s.reader.running = true ∧ ¬o.Ends := by
  cases o with
  | stop => simp [meet, Occasion.Ends, stop]
  | turn t =>
    have he := effect_next h hm hc hi t
    cases t with
    | read char =>
      cases hr : s.reader.running with
      | false => simp [meet, next_read_of_stopped char hr, hr]
      | true =>
        rw [meet, next_read char hr, reader_withReader, running_readOne_iff ho hr]
        simp [Occasion.Ends]
    | settle => simp [meet, Occasion.Ends, he.running_eq rfl]
    | start now => simp [meet, Occasion.Ends, he.running_eq rfl]
    | take => simp [meet, Occasion.Ends, he.running_eq rfl]

theorem inv_course (hi : s.Inv m) (occasions : List (Occasion τ)) :
    (s.course h occasions).Inv m := by
  induction occasions generalizing s with
  | nil => exact hi
  | cons o occasions ih => exact ih (inv_meet hm hc hi o)

theorem running_course (hi : s.Inv m) {occasions : List (Occasion τ)}
    (hpossible : ∀ o ∈ occasions, o.Possible) :
    (s.course h occasions).reader.running = true ↔
      s.reader.running = true ∧ ∀ o ∈ occasions, ¬o.Ends := by
  induction occasions generalizing s with
  | nil => simp [course]
  | cons o occasions ih =>
    obtain ⟨ho, hpossible⟩ := List.forall_mem_cons.1 hpossible
    show ((s.meet h o).course h occasions).reader.running = true ↔ _
    rw [ih (inv_meet hm hc hi o) hpossible, running_meet hm hc hi ho, List.forall_mem_cons, and_assoc]

/-- A character that stands for a key is offered as that key. -/
theorem readOne_of_standsFor {r : KeyReader} (hr : r.keymap = m) {char : Int} {k : Key}
    (hk : Keymap.StandsFor codes char k) : r.readOne char = (r.offer (.key k), none) := by
  obtain ⟨-, -, -, l, -, hl, -⟩ := id hk
  have hkey := (Keymap.keyOf?_eq_some_iff hm hc).2 hk
  exact readOne_of_item hl (hr ▸ (item?_eq_key_iff hm hc hl).2 hkey)

theorem readOne_of_unmapped {r : KeyReader} (hr : r.keymap = m) {char : Int}
    (hchar : char ≤ 0x10FFFF) (hs : ¬StopsAt char) (hk : ∀ k, ¬Keymap.StandsFor codes char k) :
    r.readOne char = (r, none) := by
  refine (readOne_of_other hchar hs).resolve_right ?_
  rintro ⟨l, k, hl, hitem⟩
  rw [hr, item?_eq_key_iff hm hc hl, Keymap.keyOf?_eq_some_iff hm hc] at hitem
  exact hk k hitem

/-- The reader goes on until it is told to stop, a character asks to quit, or it fails at the one
character whose lower case is two; until then it offers every key, whatever was read before. -/
theorem reader_goes_on (h : HoldScale τ) (occasions : List (Occasion τ))
    (hpossible : ∀ o ∈ occasions, o.Possible) :
    let s := course h (new h m) occasions
    (s.reader.running = true ↔ ∀ o ∈ occasions, ¬o.Ends) ∧
      (s.reader.running = false → ∀ char, s.next h (.read char) = s) ∧
      (s.reader.running = true → ∀ char ≤ 0x10FFFF,
        s.next h (.read char) = s.withReader (s.reader.readOne char).1 ∧
          (∀ f, (s.reader.readOne char).2 = some f ↔ char = 0x130 ∧ f = .severalCharacters) ∧
          (char ∈ quitCharacters → s.reader.readOne char = (s.reader.offer .quit, none)) ∧
          (∀ k, Keymap.StandsFor codes char k →
            s.reader.readOne char = (s.reader.offer (.key k), none)) ∧
          (¬StopsAt char → (∀ k, ¬Keymap.StandsFor codes char k) →
            s.reader.readOne char = (s.reader, none))) ∧
      (s.reader.running = true → ∀ before after : List Int,
        (∀ c ∈ before, c ≤ 0x10FFFF ∧ ¬StopsAt c) →
          (s.reader.readAll before).1.running = true ∧
            s.reader.readAll (before ++ after) = (s.reader.readAll before).1.readAll after) ∧
      (s.reader.running = true → ∀ chars : List Int, (∀ c ∈ chars, c ≤ 0x10FFFF) → ∀ f,
        (s.reader.readAll chars).2 = some f ↔ f = .severalCharacters ∧
          ∃ before char after, chars = before ++ char :: after ∧ (∀ c ∈ before, ¬StopsAt c) ∧
            char = 0x130) := by
  intro s
  have hi : s.Inv m := inv_course hm hc (inv_new h m) occasions
  have hrunning := running_course (h := h) hm hc (inv_new h m) hpossible
  refine ⟨hrunning.trans (and_iff_right rfl), fun hr char => next_read_of_stopped char hr, ?_, ?_, ?_⟩
  · intro hr char hchar
    exact ⟨next_read char hr, fault_readOne_iff hchar, readOne_of_quit,
      fun k => readOne_of_standsFor hm hc hi.keymap_eq,
      readOne_of_unmapped hm hc hi.keymap_eq hchar⟩
  · exact fun hr before after hbefore => readAll_append hbefore hr after
  · exact fun hr chars hchars => fault_readAll_iff hchars hr

end Course

/-- A capital letter, a poll around a letter that no key has, and no letter; then the character that the
reader does not survive. -/
theorem reader_goes_on_of_capital :
    let h : HoldScale Nat := ⟨0, (· + 12), fun a b => decide (a < b)⟩
    let codes : List Int :=
      [120, 49, 50, 51, 113, 119, 101, 97, 115, 100, 122, 99, 52, 114, 102, 118]
    let m := Keymap.ofCodes codes
    let occasions : List (Occasion Nat) :=
      [.turn (.read 65), .turn (.start 1), .turn (.read 0x10FFFF), .turn .take, .turn (.read (-1))]
    let s := course h (new h m) occasions
    Keymap.parse Keymap.standardText true = .ok m ∧ Keymap.codes? Keymap.standardText = .ok codes ∧
      s.reader.running = true ∧ s.drained = [7] ∧ s.reader.readOne 120 = (s.reader.offer (.key 0), none) ∧
      (s.reader.readAll [120, 0x130, 27]).2 = some .severalCharacters := by
  intro h codes m occasions s
  have hm : Keymap.parse Keymap.standardText true = .ok m := by decide +kernel
  have hc : Keymap.codes? Keymap.standardText = .ok codes := by decide +kernel
  have hpossible : ∀ o ∈ occasions, o.Possible := by simp [occasions, Occasion.Possible]
  obtain ⟨hrunning, -, hone, -, hall⟩ := reader_goes_on hm hc h occasions hpossible
  have hr : s.reader.running = true := by
    refine hrunning.2 ?_
    simp [occasions, Occasion.Ends, StopsAt, mem_quitCharacters]
  have hx : Keymap.StandsFor codes 120 0 := by
    refine ⟨by decide, by decide, 120, 120, rfl, ?_, ?_⟩ <;> decide +kernel
  refine ⟨hm, hc, hr, by decide +kernel, (hone hr 120 (by decide)).2.2.2.1 0 hx, ?_⟩
  refine (hall hr [120, 0x130, 27] (by decide) .severalCharacters).2 ⟨rfl, [120], 0x130, [27], rfl, ?_, rfl⟩
  decide

/-- After the character whose lower case is two characters neither a key nor a request to quit is read.
-/
theorem readAll_of_severalCharacters :
    let m := Keymap.ofCodes [120, 49, 50, 51, 113, 119, 101, 97, 115, 100, 122, 99, 52, 114, 102, 118]
    let r := KeyReader.new m
    Keymap.parse Keymap.standardText true = .ok m ∧
      r.readAll [0x130, 120, 27] = ({ r with running := false }, some .severalCharacters) ∧
      r.readAll [120, 27] = ({ r with running := false, queue := [.key 0, .quit] }, none) := by
  decide +kernel

end Handover

end Chip8
