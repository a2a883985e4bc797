import Chip8.Proofs.Controls.Turns

/-!
# The hand-over of typed keys

What one turn keeps, turns in any order keep (`Handover.inv_run`, `Handover.keys_run`,
`Handover.quits_run`).  Characters typed at once and polls at once are turns without another in between
(`Handover.run_type`, `Handover.run_poll`).  So nothing that was accepted is lost, and no request to quit
(`Handover.handover_loses_nothing`).
-/

namespace Chip8

open Text

namespace Handover

variable {τ : Type} {text : String} {m : Keymap} {codes : List Int}

section Run

variable {h : HoldScale τ} {s : Handover τ}

theorem run_cons (t : Turn τ) (ts : List (Turn τ)) :
    run h s (t :: ts) = run h (s.next h t) ts := rfl

theorem run_append (ts us : List (Turn τ)) : run h s (ts ++ us) = run h (run h s ts) us :=
  List.foldl_append

theorem run_takes_of_idle (hp : s.polling = none) (n : Nat) :
    run h s (List.replicate n .take) = s := by
  induction n with
  | zero => rfl
  | succ n ih =>
    have hidle : s.next h .take = s := by simp only [next, hp]
    rw [List.replicate_succ, run_cons, hidle, ih]

theorem run_takes {now : τ} {queue : List QueueItem} (hp : s.polling = some now)
    (hq : s.queue = queue) :
    let s' := run h s (List.replicate (queue.length + 1) .take)
    s'.typed = (s.typed.poll h now).1 ∧ s'.answers = s.answers ++ [(s.typed.poll h now).2.2] ∧
      s'.polling = none := by
  induction queue generalizing s with
  | nil =>
    obtain ⟨⟨⟨m, _, running, waiting⟩, held⟩, _, drained, answers⟩ := s
    cases hq
    cases hp
    exact ⟨rfl, rfl, rfl⟩
  | cons item queue ih =>
    obtain ⟨⟨⟨m, _, running, waiting⟩, held⟩, _, drained, answers⟩ := s
    cases hq
    cases hp
    cases item with
    | quit =>
      rw [List.replicate_succ, run_cons]
      intro s'
      have hs' : s' = _ := run_takes_of_idle rfl _
      rw [hs']
      exact ⟨rfl, rfl, rfl⟩
    | key k =>
      rw [List.length_cons, List.replicate_succ, run_cons]
      exact ih rfl rfl

theorem next_start (now : τ) (hp : s.polling = none) :
    s.next h (.start now) = { s with polling := some now } := by
  rw [next, hp]
  rfl

/-- A poll at once is one with no turn of the reader in between. -/
theorem run_poll (now : τ) (hp : s.polling = none) :
    let s' := run h s (.start now :: List.replicate (s.queue.length + 1) .take)
    s'.typed = (s.typed.poll h now).1 ∧ s'.answers = s.answers ++ [(s.typed.poll h now).2.2] := by
  have hstart := next_start (h := h) now hp
  rw [run_cons, hstart]
  obtain ⟨htyped, hanswers, -⟩ := run_takes (h := h) (s := { s with polling := some now }) rfl rfl
  exact ⟨htyped, hanswers⟩

theorem quit_of_drain (now : τ) (held : HeldKeys τ) (queue : List QueueItem) :
    (held.drain h now queue).2.2 = true ↔ .quit ∈ queue := by
  induction queue generalizing held with
  | nil => simp [HeldKeys.drain]
  | cons item queue ih =>
    cases item with
    | quit => simp [HeldKeys.drain]
    | key k => simp [HeldKeys.drain, ih]

theorem quit_of_poll (now : τ) (s : TypedKeys τ) :
    (s.poll h now).2.2 = true ↔ .quit ∈ s.reader.queue := by
  rw [← quit_of_drain (h := h) now s.held]
  unfold TypedKeys.poll
  split
  next hd =>
  rw [hd]
  split
  · next hquit => simp [hquit]
  · next hquit => simp [hquit]

theorem running_of_fault {r r' : KeyReader} {char : Int} {f : CodeFault}
    (hf : r.readOne char = (r', some f)) : r'.running = false := by
  unfold KeyReader.readOne at hf
  split at hf
  · cases hf
  · split at hf
    · cases hf
      rfl
    · split at hf <;> cases hf

theorem readAll_of_stopped {r : KeyReader} (hr : r.running = false) (chars : List Int) :
    r.readAll chars = (r, none) := by
  cases chars with
  | nil => rfl
  | cons char chars => simp [KeyReader.readAll, hr]

theorem run_reads (chars : List Int) :
    run h s (chars.map .read) = s.withReader (s.reader.readAll chars).1 := by
  induction chars generalizing s with
  | nil => rfl
  | cons char chars ih =>
    rw [List.map_cons, run_cons, ih]
    cases hr : s.reader.running with
    | false => rw [next_read_of_stopped char hr, readAll_of_stopped hr, readAll_of_stopped hr]
    | true =>
      rw [next_read char hr, reader_withReader, KeyReader.readAll, if_pos hr]
      cases hone : s.reader.readOne char with
      | mk r fault =>
        cases fault with
        | none => rfl
        | some f =>
          dsimp only
          rw [readAll_of_stopped (running_of_fault hone)]
          rfl

/-- Characters typed at once are read one after another. -/
theorem run_type (chars : List Int) :
    (run h s (chars.map .read)).typed = (s.typed.type chars).1 := by
  rw [run_reads]
  rfl

/-- What the parties do when the reader has its turn. -/
def turnsOf : ReaderTurn → List (Turn τ)
  | .read chars => chars.map .read
  | .settle => [.settle]

/-- The reader's turns are turns of the parties. -/
theorem run_actAll (turns : List ReaderTurn) :
    run h s (turns.flatMap turnsOf) = s.withReader (s.reader.actAll turns) := by
  induction turns generalizing s with
  | nil => rfl
  | cons turn turns ih =>
    have hturn : run h s (turnsOf turn) = s.withReader (s.reader.act turn) := by
      cases turn with
      | read chars => exact run_reads chars
      | settle => rfl
    rw [List.flatMap_cons, run_append, hturn, ih]
    rfl

variable (hm : Keymap.parse text true = .ok m) (hc : Keymap.codes? text = .ok codes)
include hm hc

theorem inv_run (hi : s.Inv m) (ts : List (Turn τ)) : (run h s ts).Inv m := by
  induction ts generalizing s with
  | nil => exact hi
  | cons t ts ih => exact ih ((effect_next h hm hc hi t).inv hi)

theorem keys_run (hi : s.Inv m) (ts : List (Turn τ)) :
    (run h s ts).keys = s.keys ++ keysOf codes (reads h s ts) := by
  induction ts generalizing s with
  | nil => exact (List.append_nil _).symm
  | cons t ts ih =>
    have he := effect_next h hm hc hi t
    rw [run_cons, ih (he.inv hi), he.keys_eq, List.append_assoc, reads, keysOf, keysOf, keysOf,
      List.filterMap_append]

theorem quits_run (hi : s.Inv m) (ts : List (Turn τ)) :
    (run h s ts).quits = s.quits + quitsOf (reads h s ts) := by
  induction ts generalizing s with
  | nil => rfl
  | cons t ts ih =>
    have he := effect_next h hm hc hi t
    rw [run_cons, ih (he.inv hi), he.quits_eq hi, Nat.add_assoc, reads, quitsOf, quitsOf, quitsOf,
      List.countP_append]

theorem stopped_run (hi : s.Inv m) (hr : s.reader.running = false) (ts : List (Turn τ)) :
    (run h s ts).reader.running = false ∧ ((run h s ts).reader.waiting = true →
      s.reader.waiting = true ∧
        (s.reader.isFull = false → (run h s ts).reader.isFull = false)) := by
  induction ts generalizing s with
  | nil => exact ⟨hr, fun hw => ⟨hw, id⟩⟩
  | cons t ts ih =>
    have he := effect_next h hm hc hi t
    obtain ⟨hr', hstep⟩ := he.of_stopped hr
    obtain ⟨hend, hrun⟩ := ih (he.inv hi) hr'
    refine ⟨hend, fun hw => ?_⟩
    obtain ⟨hw', hkeep⟩ := hrun hw
    exact ⟨(hstep hw').1, fun hroom => hkeep ((hstep hw').2 hroom)⟩

theorem answers_prefix_run (hi : s.Inv m) (ts : List (Turn τ)) :
    s.answers <+: (run h s ts).answers := by
  induction ts generalizing s with
  | nil => exact List.prefix_rfl
  | cons t ts ih =>
    have he := effect_next h hm hc hi t
    exact he.answers_prefix.trans (ih (he.inv hi))

/-- A request to quit that waits is put in by the first turn that it gets after there is room. -/
theorem delivered_of_settle (hi : s.Inv m) (hw : s.reader.waiting = true)
    (hroom : s.reader.isFull = false) (ts us : List (Turn τ)) :
    (run h s (ts ++ .settle :: us)).Delivered := by
  have hone : 1 ≤ s.quits := by
    rw [quits, hw, Bool.toNat_true]
    omega
  have hr : s.reader.running = false := by
    by_contra hr
    have hnone := hi.quits_of_running (Bool.not_eq_false _ ▸ hr)
    omega
  rw [run_append, run_cons]
  -- There is still room at the reader's turn, after which nothing waits; the request is not lost, so it
  -- was put in.
  have hi₁ := inv_run hm hc hi (h := h) ts
  obtain ⟨hr₁, hkeep⟩ := stopped_run hm hc hi (h := h) hr ts
  generalize hs₁ : run h s ts = s₁ at hi₁ hr₁ hkeep ⊢
  have he := effect_next h hm hc hi₁ .settle
  have hr₂ := (he.of_stopped hr₁).1
  have hquits := quits_run hm hc hi (h := h) (ts ++ .settle :: us)
  rw [run_append, run_cons, hs₁] at hquits
  refine delivered_of_quits ?_ (by omega)
  by_contra hwait
  have hw₂ := ((stopped_run hm hc (he.inv hi₁) hr₂ us).2 (Bool.not_eq_false _ ▸ hwait)).1
  have hw₁ := ((he.of_stopped hr₁).2 hw₂).1
  have hroom₁ := (hkeep hw₁).2 hroom
  exact Bool.false_ne_true ((he.waiting_of_settle hroom₁).symm.trans hw₂)

/-- A poll answers whether a request to quit stood in the queue while it went on. -/
theorem answer_iff (hi : s.Inv m) (hp : s.polling.isSome) {ts : List (Turn τ)} {b : Bool}
    {later : List Bool} (ha : (run h s ts).answers = s.answers ++ b :: later) :
    b = true ↔
      ∃ us, us <+: ts ∧ (run h s us).answers = s.answers ∧ .quit ∈ (run h s us).queue := by
  -- While the poll goes on a request keeps its place, so it is enough to look at the first turn.
  induction ts generalizing s with
  | nil => exact absurd ha (by simp [run])
  | cons t ts ih =>
    have he := effect_next h hm hc hi t
    have hi' := he.inv hi
    rw [run_cons] at ha
    rcases he.of_polling hp with ⟨hp', hsame, hstay⟩ | ⟨b', hend, hb'⟩
    · rw [← hsame] at ha
      rw [ih hi' hp' ha]
      constructor
      · rintro ⟨us, hus, hnone, hmem⟩
        exact ⟨t :: us, List.cons_prefix_cons.2 ⟨rfl, hus⟩, hnone.trans hsame, hmem⟩
      · rintro ⟨us, hus, hnone, hmem⟩
        cases us with
        | nil => exact ⟨[], List.nil_prefix, rfl, hstay hmem⟩
        | cons u us =>
          obtain ⟨rfl, hus'⟩ := List.cons_prefix_cons.1 hus
          exact ⟨us, hus', hnone.trans hsame.symm, hmem⟩
    · have hb : b = b' := by
        have hprefix := answers_prefix_run hm hc hi' (h := h) ts
        rw [ha, hend, List.prefix_append_right_inj, List.cons_prefix_cons] at hprefix
        exact hprefix.1.symm
      rw [hb, hb']
      constructor
      · exact fun hmem => ⟨[], List.nil_prefix, rfl, hmem⟩
      · rintro ⟨us, hus, hnone, hmem⟩
        cases us with
        | nil => exact hmem
        | cons u us =>
          obtain ⟨rfl, -⟩ := List.cons_prefix_cons.1 hus
          have hprefix := answers_prefix_run hm hc hi' (h := h) us
          rw [hend, ← run_cons, hnone] at hprefix
          exact absurd hprefix.length_le (by simp)

/-- A request to quit that finds no room waits. -/
theorem reader_of_quit_full (hi : s.Inv m) (hr : s.reader.running = true)
    (hfull : s.reader.isFull = true) {char : Int} (hq : char ∈ quitCharacters) :
    (s.next h (.read char)).reader = { s.reader with running := false, waiting := true } := by
  rw [next_read char hr, reader_withReader]
  have hread := reading_readOne hm hc hi.keymap_eq char
  generalize (s.reader.readOne char).1 = r at hread ⊢
  cases hread with
  | quit _ hroom => exact absurd (hroom.symm.trans hfull) Bool.false_ne_true
  | wait => rfl
  | key _ _ hno => exact absurd hq hno
  | drop hno => exact absurd hq hno
  | skip _ hno => exact absurd hq hno
  | fail _ hno => exact absurd hq hno

/-- Whatever turns the parties took, the queue is bounded, and what was accepted is drained or queued; a
request to quit is kept until a poll has made room, and a poll answers whether it met one. -/
theorem handover_loses_nothing (h : HoldScale τ) (turns : List (Turn τ)) :
    let s := run h (new h m) turns
    let read := reads h (new h m) turns
    (s.queue.length ≤ 16 ∧ .quit ∉ s.queue.dropLast) ∧
      (s.Delivered → (∀ char, s.next h (.read char) = s) ∧ s.next h .settle = s) ∧
      (s.keys = keysOf codes read ∧
        ∀ char k, Keymap.keyOf? codes char = some k ↔ Keymap.StandsFor codes char k) ∧
      (s.quits = quitsOf read ∧ s.quits ≤ 1) ∧
      (s.reader.running = true → s.reader.isFull = true → ∀ char ∈ quitCharacters,
        (s.next h (.read char)).reader = { s.reader with running := false, waiting := true }) ∧
      (s.reader.waiting = true → (s.polling.isSome ∨ s.reader.isFull = false) →
        ∀ ts us, (run h s (.take :: ts ++ .settle :: us)).Delivered) ∧
      (s.polling = none → ∀ now ts b later,
        (run h s (.start now :: ts)).answers = s.answers ++ b :: later →
          (b = true ↔ ∃ us, us <+: ts ∧ (run h s (.start now :: us)).answers = s.answers ∧
            .quit ∈ (run h s (.start now :: us)).queue)) ∧
      (s.polling = none → ∀ now,
        let s' := run h s (.start now :: List.replicate (s.queue.length + 1) .take)
        s'.typed = (s.typed.poll h now).1 ∧ s'.answers = s.answers ++ [(s.typed.poll h now).2.2] ∧
          ((s.typed.poll h now).2.2 = true ↔ .quit ∈ s.queue)) ∧
      ∀ chars, (run h s (chars.map .read)).typed = (s.typed.type chars).1 := by
  intro s read
  have hi : s.Inv m := inv_run hm hc (inv_new h m) turns
  have hkeys := keys_run (h := h) hm hc (inv_new h m) turns
  have hquits := quits_run (h := h) hm hc (inv_new h m) turns
  refine ⟨⟨hi.length_le, hi.quit_last⟩, ?_, ⟨hkeys, ?_⟩, ⟨?_, hi.quits_le⟩, ?_, ?_, ?_, ?_, ?_⟩
  · intro hd
    obtain ⟨hr, hw⟩ := hi.stopped_of_delivered hd
    refine ⟨fun char => next_read_of_stopped char hr, ?_⟩
    show s.withReader s.reader.settle = s
    rw [settle_of_not_waiting hw]
    rfl
  · exact fun char k => Keymap.keyOf?_eq_some_iff hm hc
  · exact hquits.trans (Nat.zero_add _)
  · intro hr hfull char hq
    exact reader_of_quit_full hm hc hi hr hfull hq
  · intro hw hp ts us
    have he := effect_next h hm hc hi .take
    rw [List.cons_append, run_cons]
    exact delivered_of_settle hm hc (he.inv hi) (he.waiting_of_take.trans hw)
      (he.room_of_take hi hp) ts us
  · intro hp now ts b later ha
    have he := effect_next h hm hc hi (.start now)
    have hstart := next_start (h := h) now hp
    simp only [run_cons, hstart] at ha ⊢
    exact answer_iff hm hc (hstart ▸ he.inv hi) rfl ha
  · intro hp now
    obtain ⟨htyped, hanswers⟩ := run_poll (h := h) now hp
    exact ⟨htyped, hanswers, quit_of_poll now s.typed⟩
  · exact fun chars => run_type chars

end Run

/-- Sixteen times the letter for key 0 and then escape: the request waits until the poll takes a key,
also if the reader gets its turn much later. -/
theorem handover_of_full_queue :
    let h : HoldScale Nat := ⟨0, (· + 12), fun a b => decide (a < b)⟩
    let codes : List Int :=
      [120, 49, 50, 51, 113, 119, 101, 97, 115, 100, 122, 99, 52, 114, 102, 118]
    let m := Keymap.ofCodes codes
    let s := run h (new h m) (List.replicate 16 (.read 120) ++ [.read 27, .read 120, .start 1])
    Keymap.parse Keymap.standardText true = .ok m ∧ Keymap.codes? Keymap.standardText = .ok codes ∧
      s.keys = List.replicate 16 0 ∧ s.reader.waiting = true ∧
      ∀ ts us, (run h s (.take :: ts ++ .settle :: us)).Delivered := by
  intro h codes m s
  have hm : Keymap.parse Keymap.standardText true = .ok m := by decide +kernel
  have hc : Keymap.codes? Keymap.standardText = .ok codes := by decide +kernel
  have hw : s.reader.waiting = true := by decide +kernel
  have hp : s.polling.isSome = true := by decide +kernel
  obtain ⟨-, -, -, -, -, hdelivered, -⟩ := handover_loses_nothing hm hc h
    (List.replicate 16 (.read 120) ++ [.read 27, .read 120, .start 1])
  exact ⟨hm, hc, by decide +kernel, hw, hdelivered hw (Or.inl hp)⟩

end Handover

end Chip8
