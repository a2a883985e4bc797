import Chip8.Proofs.Controls.Holding
import Chip8.Proofs.Controls.KeymapTexts
import Chip8.Proofs.Instruction.Effect

/-!
# Keys from window events, batch by batch

What a poll answers to a batch of window events (`WindowEvent.answer`) takes batches apart: two of them
in one poll pass on the same changes as each in its own.  So the keypad after any batches shows for each
key what the last event that concerns its host key did (`WindowEvent.state?`,
`WindowEvent.pressAll_allUp`), and releasing the escape key only ever asks to quit
(`WindowEvent.batches_add_up`).
-/

namespace Chip8

/-- Changes are made in turn. -/
theorem Keypad.press_append (keypad : Keypad) (changes more : List (Int × Bool)) :
    keypad.press (changes ++ more) = keypad.press changes >>= fun next => next.press more :=
  List.foldlM_append

namespace WindowEvent

open Instruction (bind_of_ok)

/-- What a poll answers to a batch of events. -/
def answer (m : Keymap) (events : List WindowEvent) : Poll where
  keys := Controls.asKeys (keyChanges m events)
  quit := anyAsksToQuit events

/-- The keypad after the changes that polls pass on for batches of events, up to the first change that it
refuses. -/
def pressAll (m : Keymap) (keypad : Keypad) (batches : List (List WindowEvent)) :
    Except Fault Keypad :=
  batches.foldlM (fun (keypad : Keypad) batch => keypad.press (answer m batch).keys) keypad

/-- Whether an event leaves the host key with a code down, if it concerns that key. -/
def state? (code : Int) (e : WindowEvent) : Option Bool :=
  if e.code = code then
    if e.type = 768 then some true
    else if e.type = 769 ∧ code ≠ 27 then some false
    else none
  else none

/-! ### Single events -/

theorem asksToQuit_iff (e : WindowEvent) :
    e.asksToQuit = true ↔ e.type = 256 ∨ e.type = 769 ∧ e.code = 27 := by
  simp [asksToQuit, quitType, releaseType, escapeCode]

/-- An event changes a key as it changes the host key that stands for it. -/
theorem keyChange?_eq_some_iff {m : Keymap} {k : Key} {code : Int}
    (hk : ∀ c, m.key? c = some k ↔ c = code) (e : WindowEvent) (pressed : Bool) :
    e.keyChange? m = some (k, pressed) ↔ e.state? code = some pressed := by
  have hmap (on : Bool) :
      (m.key? e.code).map (·, on) = some (k, pressed) ↔
        (if e.code = code then some on else none) = some pressed := by
    have hcode := hk e.code
    cases hkey : m.key? e.code with
    | none =>
      rw [hkey] at hcode
      rw [if_neg fun h => nomatch hcode.2 h]
      simp
    | some j =>
      rw [hkey, Option.some.injEq] at hcode
      by_cases hj : j = k
      · simp [hj, hcode.1 hj]
      · simp [hj, mt hcode.2 hj]
  by_cases hpress : e.type = 768
  · have hquit : e.asksToQuit = false := by
      rw [Bool.eq_false_iff, ne_eq, asksToQuit_iff]
      omega
    simpa [keyChange?, state?, hquit, hpress, pressType] using hmap true
  · by_cases hrelease : e.type = 769
    · by_cases hescape : e.code = 27
      · -- letting go of escape asks to quit, whatever the keymap says of it
        have hquit : e.asksToQuit = true := (asksToQuit_iff e).2 (Or.inr ⟨hrelease, hescape⟩)
        have hstate : e.state? code = none := by
          simp only [state?, hrelease, hescape]
          split
          · next h => simp [h]
          · rfl
        simp [keyChange?, hquit, hstate]
      · have hquit : e.asksToQuit = false := by
          rw [Bool.eq_false_iff, ne_eq, asksToQuit_iff]
          omega
        have hstate : e.state? code = if e.code = code then some false else none := by
          simp only [state?, hrelease]
          split
          · next h => simp [← h, hescape]
          · rfl
        rw [hstate, ← hmap]
        simp [keyChange?, hquit, hrelease, pressType, releaseType]
    · simp [keyChange?, state?, hpress, hrelease, pressType, releaseType]

/-- The changes of a key are what the events do to its host key. -/
theorem changesOf_keyChanges {m : Keymap} {k : Key} {code : Int}
    (hk : ∀ c, m.key? c = some k ↔ c = code) (events : List WindowEvent) :
    changesOf k (keyChanges m events) = events.filterMap (state? code) := by
  rw [changesOf, keyChanges, List.filterMap_filterMap]
  congr 1
  funext e
  apply Option.ext
  intro pressed
  rw [← keyChange?_eq_some_iff hk, Option.bind_eq_some_iff]
  constructor
  · rintro ⟨⟨j, on⟩, hchange, hpressed⟩
    dsimp only at hpressed
    split at hpressed
    · next hj =>
      cases hpressed
      rw [hchange, hj]
    · cases hpressed
  · intro hchange
    exact ⟨(k, pressed), hchange, if_pos rfl⟩

/-! ### Batches -/

section

variable (m : Keymap)

theorem keyChanges_append (a b : List WindowEvent) :
    keyChanges m (a ++ b) = keyChanges m a ++ keyChanges m b :=
  List.filterMap_append

theorem answer_append (a b : List WindowEvent) :
    (answer m (a ++ b)).keys = (answer m a).keys ++ (answer m b).keys ∧
      (answer m (a ++ b)).quit = ((answer m a).quit || (answer m b).quit) := by
  constructor
  · simp only [answer, keyChanges_append, Controls.asKeys, List.map_append]
  · exact List.any_append

theorem quit_answer_iff (events : List WindowEvent) :
    (answer m events).quit = true ↔ ∃ e ∈ events, e.type = 256 ∨ e.type = 769 ∧ e.code = 27 := by
  simp only [answer, anyAsksToQuit, List.any_eq_true, asksToQuit_iff]

/-- The keypad after the answers to batches is the one after the answer to all their events. -/
theorem pressAll_eq (keypad : Keypad) (batches : List (List WindowEvent)) :
    pressAll m keypad batches = keypad.press (answer m batches.flatten).keys := by
  induction batches generalizing keypad with
  | nil => rfl
  | cons batch batches ih =>
    rw [pressAll, List.foldlM_cons, List.flatten_cons, (answer_append m batch _).1,
      Keypad.press_append]
    congr 1
    funext next
    exact ih next

end

/-- A keypad that starts clear shows for each key what the last event did that concerns its host key. -/
theorem pressAll_allUp {codes : List Int} (hn : codes.Nodup) (batches : List (List WindowEvent)) :
    ∃ keypad, pressAll (.ofCodes codes) .allUp batches = .ok keypad ∧
      ∀ (k : Key) code, codes[k.val]? = some code →
        keypad.down.get k = (batches.flatten.reverse.findSome? (state? code)).getD false := by
  obtain ⟨keypad, hpress, hget⟩ :=
    press_asKeys .allUp (keyChanges (.ofCodes codes) batches.flatten)
  refine ⟨keypad, (pressAll_eq _ _ _).trans hpress, fun k code hcode => ?_⟩
  have hk (c : Int) : (Keymap.ofCodes codes).key? c = some k ↔ c = code := by
    rw [Keymap.key?_ofCodes hn, hcode, Option.some.injEq]
    exact eq_comm
  have hup : Keypad.allUp.down.get k = false := by
    simp [Keypad.allUp, Vector.get]
  rw [hget k, changesOf_keyChanges hk, List.getLast?_filterMap, hup]

/-! ### Polls -/

/-- Unless the host refuses it, a poll of the keys of a window takes the next batch of events and
answers it. -/
theorem poll_events {host : Host} (m : Keymap) {s : Session}
    (h : host.refuses s.calls .takeEvents = false) :
    (Controls.events m).poll host s = .ok (.events m, answer m (s.events.headD []))
      { s with calls := .takeEvents :: s.calls, events := s.events.tail } := by
  have hcall : InSession.call host .takeEvents s = .ok () { s with calls := .takeEvents :: s.calls } := by
    show (if host.refuses s.calls .takeEvents then throw .refused else pure () : InSession Unit) _ = _
    rw [h]
    rfl
  have htake : InSession.takeEvents host s = .ok (s.events.headD [])
      { s with calls := .takeEvents :: s.calls, events := s.events.tail } := by
    rw [InSession.takeEvents, bind_of_ok hcall]
    obtain ⟨calls, printed, events, chars, times, terminal⟩ := s
    cases events <;> rfl
  exact bind_of_ok htake

/-- Batches of events are answered as one after the other; for each key the keypad shows what the last
event of its host key did, and a batch asks to quit iff it holds an event that does. -/
theorem batches_add_up {text : String} {m : Keymap} (hm : Keymap.parse text false = .ok m) :
    ∃ codes, Keymap.codes? text = .ok codes ∧ codes.length = 16 ∧ codes.Nodup ∧
      (∀ a b, (answer m (a ++ b)).keys = (answer m a).keys ++ (answer m b).keys ∧
        (answer m (a ++ b)).quit = ((answer m a).quit || (answer m b).quit)) ∧
      (∀ batches, ∃ keypad, pressAll m .allUp batches = .ok keypad ∧
        ∀ (k : Key) code, codes[k.val]? = some code →
          keypad.down.get k = (batches.flatten.reverse.findSome? (state? code)).getD false) ∧
      (∀ batch, (answer m batch).quit = true ↔
        ∃ e ∈ batch, e.type = 256 ∨ e.type = 769 ∧ e.code = 27) ∧
      (∀ batch, ∀ change ∈ (answer m batch).keys, 0 ≤ change.1 ∧ change.1 < 16) ∧
      ∀ host s, host.refuses s.calls .takeEvents = false →
        (Controls.events m).poll host s = .ok (.events m, answer m (s.events.headD []))
          { s with calls := .takeEvents :: s.calls, events := s.events.tail } := by
  obtain ⟨codes, hcodes, hn, rfl⟩ := (Keymap.parse_plain_eq_ok_iff m).1 hm
  refine ⟨codes, hcodes, Keymap.length_of_codes? hcodes, hn, answer_append _, pressAll_allUp hn,
    quit_answer_iff _, fun batch change => bounds_of_mem_asKeys, fun host s h => poll_events _ h⟩

/-- Escape stands for key 0: pressed and let go in two batches, with a release of another key behind, it
stays down, and both the second and the whole ask to quit. -/
theorem batches_add_up_of_escape :
    let codes := [27, 49, 50, 51, 113, 119, 101, 97, 115, 100, 122, 99, 52, 114, 102, 118]
    let m := Keymap.ofCodes codes
    let pressed : List WindowEvent := [⟨768, 27⟩, ⟨768, 49⟩]
    let released : List WindowEvent := [⟨769, 27⟩, ⟨769, 49⟩]
    Keymap.parse "27,49,50,51,113,119,101,97,115,100,122,99,52,114,102,118" false = .ok m ∧
      (answer m (pressed ++ released)).keys = [(0, true), (1, true), (1, false)] ∧
      (answer m pressed).quit = false ∧ (answer m (pressed ++ released)).quit = true ∧
      ∃ keypad, pressAll m .allUp [pressed, released] = .ok keypad ∧
        keypad.down.get 0 = true ∧ keypad.down.get 1 = false := by
  intro codes m pressed released
  have hm : Keymap.parse "27,49,50,51,113,119,101,97,115,100,122,99,52,114,102,118" false = .ok m := by
    decide +kernel
  have hcodes : Keymap.codes? "27,49,50,51,113,119,101,97,115,100,122,99,52,114,102,118" = .ok codes := by
    decide +kernel
  obtain ⟨read, hread, -, -, hadd, hpress, -⟩ := batches_add_up hm
  cases hcodes.symm.trans hread
  obtain ⟨keypad, hkeypad, hget⟩ := hpress [pressed, released]
  obtain ⟨hkeys, hquit⟩ := hadd pressed released
  have hfirst : (answer m pressed).quit = false := by decide +kernel
  refine ⟨hm, ?_, hfirst, ?_, keypad, hkeypad, ?_, ?_⟩
  · rw [hkeys]
    decide +kernel
  · rw [hquit, hfirst]
    decide +kernel
  · rw [hget 0 27 rfl]
    decide +kernel
  · rw [hget 1 49 rfl]
    decide +kernel

end WindowEvent

end Chip8
