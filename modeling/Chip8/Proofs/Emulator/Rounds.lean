import Chip8.Proofs.Emulator.Titles

/-!
# A run as rounds

A run is a list of rounds: a title if one is due, frames, a poll, and a picture unless the poll asked to
quit.  How many frames a round has depends on the clock alone (`Pace.frameCounts`).  A run ends with the
poll that asks to quit, where the readings of the clock end, or with the first event that fails
(`Emulation.Ending`, `Emulation.run_refines_steps`).
-/

namespace Chip8

variable {ρ τ σ : Type}

/-! ### What the clock says -/

namespace Pace

/-- What the next reading is for, after a reading. -/
def after (t : TimeScale τ) (now : τ) : Pace τ → Pace τ
  | .starting => .ready now t.zero
  | .ready last owed =>
    let left := (t.framesIn (t.add owed (t.stretch last now))).2
    .waiting (t.sub (t.add now t.frame) left) now left
  | .waiting target last owed => if t.lt now target then .waiting target last owed else .ready last owed

/-- The number of frames in the round that a reading begins, if it begins one. -/
def frames? (t : TimeScale τ) (now : τ) : Pace τ → Option Nat
  | .ready last owed => some (t.framesIn (t.add owed (t.stretch last now))).1
  | _ => none

/-- The numbers of frames in the rounds that readings begin. -/
def frameCounts (t : TimeScale τ) : Pace τ → List τ → List Nat
  | _, [] => []
  | pace, now :: clock => (pace.frames? t now).toList ++ frameCounts t (pace.after t now) clock

/-- The reading, if it begins a round. -/
def start? (now : τ) : Pace τ → Option τ
  | .ready _ _ => some now
  | _ => none

/-- The readings that begin rounds. -/
def starts (t : TimeScale τ) : Pace τ → List τ → List τ
  | _, [] => []
  | pace, now :: clock => (pace.start? now).toList ++ starts t (pace.after t now) clock

end Pace

namespace Emulation

open Instruction (bind_of_ok bind_of_error of_bind_eq_ok)

/-- A round. -/
structure Round where
  /-- The figures in the title, if one is due. -/
  report : Option (Nat × Nat)
  frames : Nat
  answer : Poll

/-- The events of a round, with a number of instructions in each frame. -/
def Round.events (ops : Nat) (r : Round) : List Event :=
  titles r.report ++ (List.replicate r.frames (frame ops)).flatten ++
    .poll r.answer :: if r.answer.quit then [] else [.present]

/-- Whether a round shows a title. -/
def Round.titled (r : Round) : Bool := r.report.isSome

variable [NumberSource ρ] {t : TimeScale τ} {fe : FrontEnd σ} {ops : Nat} {e : Emulator ρ τ σ}

/-- A round shows a title iff a report is due at its reading. -/
theorem course_round (t : TimeScale τ) (fe : FrontEnd σ) (last owed now : τ)
    (he : e.opsPerFrame = ops) :
    Course fe e
      (fun next events => ∃ r : Round,
        some r.frames = (Pace.ready last owed).frames? t now ∧ r.titled = t.le e.nextReport now ∧
          events = r.events ops ∧
          next = if r.answer.quit then none else some ((Pace.ready last owed).after t now))
      (round t fe last owed now e) := by
  let n := (t.framesIn (t.add owed (t.stretch last now))).1
  let pace := (Pace.ready last owed).after t now
  -- From the last part of the round to the first, each with what comes after it.
  have hshow : Performs fe ops (present fe >>= fun _ => pure (some pace) : Emulation ρ τ σ _)
      fun next events => next = some pace ∧ events = [.present] := by
    refine ((performs_present fe ops).bind (fun _ => performs_pure (some pace)) fun _ =>
      ⟨_, _, rfl, rfl⟩).mono ?_
    rintro _ _ ⟨_, _, _, rfl, ⟨rfl, rfl⟩, rfl⟩
    exact ⟨rfl, rfl⟩
  have hend (quit : Bool) : Performs fe ops
      (if quit then pure none else present fe >>= fun _ => pure (some pace) : Emulation ρ τ σ _)
      fun next events => next = (if quit then none else some pace) ∧
        events = if quit then [] else [.present] := by
    cases quit with
    | true => exact performs_pure none
    | false => exact hshow
  have hpoll := (performs_processInputs (ρ := ρ) (τ := τ) fe ops).bind hend fun _ =>
    ⟨_, _, rfl, rfl⟩
  have hframes := (performs_runFrames (ρ := ρ) (τ := τ) fe ops n).bind (fun _ => hpoll) fun _ =>
    ⟨_, _, false, _, _, ⟨default, rfl, rfl⟩, ⟨rfl, rfl⟩, rfl⟩
  have hround : Course fe e _ (round t fe last owed now e) :=
    (course_reportIfDue t fe now e).bind he (fun _ => hframes) fun _ =>
      ⟨_, _, (), _, _, rfl, ⟨false, _, _, ⟨default, rfl, rfl⟩, ⟨rfl, rfl⟩, rfl⟩, rfl⟩
  refine hround.mono ?_
  rintro next events ⟨_, _, _, ⟨report, hdue, rfl⟩, ⟨_, _, _, rfl, ⟨quit, _, _, ⟨answer, rfl, rfl⟩,
    ⟨rfl, rfl⟩, rfl⟩, rfl⟩, rfl⟩
  refine ⟨⟨report, n, answer⟩, rfl, hdue, ?_, rfl⟩
  rw [Round.events, List.append_assoc]
  rfl

/-- Taking a reading is no event. -/
theorem Course.countReading {α : Type} {act : Emulation ρ τ σ α} {L : α → List Event → Prop}
    (h : Course fe { e with readings := e.readings + 1 } L (act { e with readings := e.readings + 1 })) :
    Course fe e L ((countReading >>= fun _ => act) e) := by
  have hsame : Covers fe e [] { e with readings := e.readings + 1 } :=
    ⟨.refl _ _, .of_same rfl rfl rfl⟩
  show Course fe e L (act { e with readings := e.readings + 1 })
  generalize act { e with readings := e.readings + 1 } = result at h ⊢
  cases h with
  | done performed covers => exact .done performed (hsame.trans covers)
  | stopped planned parts stops => exact .stopped planned parts (hsame.stops stops)

/-- The rounds that a reading begins, one at most, if a report is due from `due` on. -/
structure Begun (t : TimeScale τ) (pace : Pace τ) (due now : τ) (rounds : List Round) : Prop where
  counts : rounds.map Round.frames = (pace.frames? t now).toList
  titles : rounds.map Round.titled = t.dues due (pace.start? now).toList

theorem course_takeReading (t : TimeScale τ) (fe : FrontEnd σ) (pace : Pace τ) (now : τ)
    (he : e.opsPerFrame = ops) :
    Course fe e
      (fun next events => ∃ rounds : List Round, Begun t pace e.nextReport now rounds ∧
        events = rounds.flatMap (Round.events ops) ∧
        next = if rounds.any (·.answer.quit) then none else some (pace.after t now))
      (takeReading t fe pace now e) := by
  have hnone (pace' : Pace τ) : Course fe { e with readings := e.readings + 1 }
      (fun next events => next = some pace' ∧ events = [])
      ((pure (some pace') : Emulation ρ τ σ (Option (Pace τ))) { e with readings := e.readings + 1 }) :=
    performs_pure (some pace') _ he
  cases pace with
  | starting =>
    refine Course.countReading ((hnone (.ready now t.zero)).mono ?_)
    rintro _ _ ⟨rfl, rfl⟩
    exact ⟨[], ⟨rfl, rfl⟩, rfl, rfl⟩
  | ready last owed =>
    refine Course.countReading
      ((course_round (e := { e with readings := e.readings + 1 }) t fe last owed now he).mono ?_)
    rintro _ _ ⟨r, hframes, htitled, rfl, rfl⟩
    refine ⟨[r], ⟨congrArg Option.toList hframes, ?_⟩, ?_, ?_⟩
    · rw [List.map_singleton, htitled]
      rfl
    · rw [List.flatMap_singleton]
    · rw [List.any_cons, List.any_nil, Bool.or_false]
  | waiting target last owed =>
    refine Course.countReading
      ((hnone (if t.lt now target then .waiting target last owed else .ready last owed)).mono ?_)
    rintro _ _ ⟨rfl, rfl⟩
    exact ⟨[], ⟨rfl, rfl⟩, rfl, rfl⟩

/-- After a reading, the next report is due from the time on that the round it begins leads to. -/
theorem nextReport_takeReading {pace : Pace τ} {now : τ} {next : Option (Pace τ)}
    {e' : Emulator ρ τ σ} (h : takeReading t fe pace now e = .ok next e') :
    e'.nextReport = (pace.start? now).toList.foldl t.renewed e.nextReport := by
  obtain ⟨_, e₁, hcount, hact⟩ := of_bind_eq_ok h
  cases hcount
  cases pace with
  | starting =>
    cases hact
    rfl
  | ready last owed =>
    have hround : round t fe last owed now { e with readings := e.readings + 1 } = .ok next e' := hact
    have hnext := nextReport_round hround
    exact hnext
  | waiting target last owed =>
    cases hact
    rfl

/-- How a run ends that is paced by the readings `clock`, with the rounds that it has begun. -/
inductive Ending (t : TimeScale τ) (fe : FrontEnd σ) (ops : Nat) (pace : Pace τ) (clock : List τ)
    (e : Emulator ρ τ σ) : List Round → EStateM.Result Failure (Emulator ρ τ σ) Unit → Prop
  /-- The last poll asks to quit. -/
  | quit {rounds : List Round} {last : Round} {e' : Emulator ρ τ σ}
      (goesOn : ∀ r ∈ rounds, r.answer.quit = false) (quits : last.answer.quit = true)
      (counts : (rounds ++ [last]).map Round.frames <+: pace.frameCounts t clock)
      (covers : Covers fe e ((rounds ++ [last]).flatMap (Round.events ops)) e')
      (titles : (rounds ++ [last]).map Round.titled <+: t.dues e.nextReport (pace.starts t clock)) :
      Ending t fe ops pace clock e (rounds ++ [last]) (.ok () e')
  /-- The readings are used up, and further ones would go on from here. -/
  | exhausted {rounds : List Round} {e' : Emulator ρ τ σ} {pace' : Pace τ}
      (goesOn : ∀ r ∈ rounds, r.answer.quit = false)
      (counts : rounds.map Round.frames = pace.frameCounts t clock)
      (covers : Covers fe e (rounds.flatMap (Round.events ops)) e')
      (resumes : ∀ more, runFrom t fe pace (clock ++ more) e = runFrom t fe pace' more e')
      (titles : rounds.map Round.titled <+: t.dues e.nextReport (pace.starts t clock)) :
      Ending t fe ops pace clock e rounds (.error .clockExhausted e')
  /-- An event of the last round fails. -/
  | failed {rounds : List Round} {events rest : List Event} {event : Event} {failure : Failure}
      {e' : Emulator ρ τ σ} (goesOn : ∀ r ∈ rounds.dropLast, r.answer.quit = false)
      (counts : rounds.map Round.frames <+: pace.frameCounts t clock)
      (parts : rounds.flatMap (Round.events ops) = events ++ event :: rest)
      (stops : Stops fe e events event failure e')
      (titles : rounds.map Round.titled <+: t.dues e.nextReport (pace.starts t clock)) :
      Ending t fe ops pace clock e rounds (.error failure e')

section Ending

variable {pace : Pace τ} {now : τ} {clock : List τ} {e₁ : Emulator ρ τ σ} {first rounds : List Round}
  {result : EStateM.Result Failure (Emulator ρ τ σ) Unit}

theorem Ending.counts_prefix (h : Ending t fe ops pace clock e rounds result) :
    rounds.map Round.frames <+: pace.frameCounts t clock := by
  cases h with
  | quit _ _ counts => exact counts
  | exhausted _ counts => exact counts ▸ List.prefix_refl _
  | failed _ counts => exact counts

theorem Ending.titles_prefix (h : Ending t fe ops pace clock e rounds result) :
    rounds.map Round.titled <+: t.dues e.nextReport (pace.starts t clock) := by
  cases h with
  | quit _ _ _ _ titles => exact titles
  | exhausted _ _ _ _ titles => exact titles
  | failed _ _ _ _ titles => exact titles

theorem runFrom_of_none (hact : takeReading t fe pace now e = .ok none e₁) (clock : List τ) :
    runFrom t fe pace (now :: clock) e = .ok () e₁ := by
  rw [runFrom, bind_of_ok hact]
  rfl

theorem runFrom_of_some {next : Pace τ} (hact : takeReading t fe pace now e = .ok (some next) e₁)
    (clock : List τ) : runFrom t fe pace (now :: clock) e = runFrom t fe next clock e₁ := by
  rw [runFrom, bind_of_ok hact]

theorem runFrom_of_error {failure : Failure}
    (hact : takeReading t fe pace now e = .error failure e₁) (clock : List τ) :
    runFrom t fe pace (now :: clock) e = .error failure e₁ := by
  rw [runFrom, bind_of_error hact]

/-- A reading after which a run goes on comes before all that it goes on with. -/
theorem Ending.prepend
    (hgo : ∀ r ∈ first, r.answer.quit = false) (hbegun : Begun t pace e.nextReport now first)
    (hact : takeReading t fe pace now e = .ok (some (pace.after t now)) e₁)
    (hcovers : Covers fe e (first.flatMap (Round.events ops)) e₁)
    (h : Ending t fe ops (pace.after t now) clock e₁ rounds result) :
    Ending t fe ops pace (now :: clock) e (first ++ rounds) result := by
  have hcounts (rounds : List Round) (counts : rounds.map Round.frames <+:
        (pace.after t now).frameCounts t clock) :
      (first ++ rounds).map Round.frames <+: pace.frameCounts t (now :: clock) := by
    rw [List.map_append, hbegun.counts, Pace.frameCounts]
    exact List.prefix_append_right_inj _ |>.2 counts
  have htitles (rounds : List Round) (titles : rounds.map Round.titled <+:
        t.dues e₁.nextReport ((pace.after t now).starts t clock)) :
      (first ++ rounds).map Round.titled <+: t.dues e.nextReport (pace.starts t (now :: clock)) := by
    rw [List.map_append, hbegun.titles, Pace.starts, TimeScale.dues_append,
      ← nextReport_takeReading hact]
    exact List.prefix_append_right_inj _ |>.2 titles
  cases h with
  | @quit rounds last e' goesOn quits counts covers titles =>
    have hgo' : ∀ r ∈ first ++ rounds, r.answer.quit = false :=
      List.forall_mem_append.2 ⟨hgo, goesOn⟩
    rw [← List.append_assoc]
    refine .quit hgo' quits ?_ ?_ ?_
    · rw [List.append_assoc]
      exact hcounts _ counts
    · rw [List.append_assoc, List.flatMap_append]
      exact hcovers.trans covers
    · rw [List.append_assoc]
      exact htitles _ titles
  | @exhausted _ e' pace' goesOn counts covers resumes titles =>
    have hgo' : ∀ r ∈ first ++ rounds, r.answer.quit = false :=
      List.forall_mem_append.2 ⟨hgo, goesOn⟩
    have hresumes (more : List τ) :
        runFrom t fe pace (now :: clock ++ more) e = runFrom t fe pace' more e' := by
      rw [List.cons_append, runFrom_of_some hact, resumes]
    refine .exhausted hgo' ?_ ?_ hresumes (htitles _ titles)
    · rw [List.map_append, hbegun.counts, counts, Pace.frameCounts]
    · rw [List.flatMap_append]
      exact hcovers.trans covers
  | @failed _ events rest event failure e' goesOn counts parts stops titles =>
    have hne : rounds ≠ [] := by
      rintro rfl
      simp at parts
    have hgo' : ∀ r ∈ (first ++ rounds).dropLast, r.answer.quit = false := by
      rw [List.dropLast_append_of_ne_nil hne]
      exact List.forall_mem_append.2 ⟨hgo, goesOn⟩
    have hparts : (first ++ rounds).flatMap (Round.events ops) =
        (first.flatMap (Round.events ops) ++ events) ++ event :: rest := by
      rw [List.flatMap_append, parts, List.append_assoc]
    exact .failed hgo' (hcounts _ counts) hparts (hcovers.stops stops) (htitles _ titles)

theorem rounds_of_reading {rounds : List Round}
    (h : rounds.map Round.frames = (pace.frames? t now).toList) : rounds = [] ∨ ∃ r, rounds = [r] := by
  have hlength := congrArg List.length h
  rw [List.length_map] at hlength
  cases hframes : pace.frames? t now with
  | none =>
    rw [hframes] at hlength
    exact Or.inl (List.length_eq_zero_iff.1 hlength)
  | some n =>
    rw [hframes] at hlength
    exact Or.inr (List.length_eq_one_iff.1 hlength)

/-- A run ends in one of these ways. -/
theorem ending_runFrom (t : TimeScale τ) (fe : FrontEnd σ) (pace : Pace τ) (clock : List τ)
    (he : e.opsPerFrame = ops) :
    ∃ rounds, Ending t fe ops pace clock e rounds (runFrom t fe pace clock e) := by
  -- A reading begins one round at most; what it leads to paces the readings after it.
  induction clock generalizing pace e with
  | nil =>
    have hgo : ∀ r ∈ ([] : List Round), r.answer.quit = false := by simp
    exact ⟨[], .exhausted hgo rfl (.refl fe e) (fun more => rfl) List.nil_prefix⟩
  | cons now clock ih =>
    have htake := course_takeReading t fe pace now he
    have hfirst {rounds : List Round} (hbegun : Begun t pace e.nextReport now rounds) :
        rounds.map Round.frames <+: pace.frameCounts t (now :: clock) ∧
          rounds.map Round.titled <+: t.dues e.nextReport (pace.starts t (now :: clock)) := by
      rw [hbegun.counts, hbegun.titles, Pace.frameCounts, Pace.starts, TimeScale.dues_append]
      exact ⟨List.prefix_append _ _, List.prefix_append _ _⟩
    cases hact : takeReading t fe pace now e with
    | error failure e₁ =>
      rw [hact] at htake
      rw [runFrom_of_error hact]
      cases htake with
      | @stopped _ whole _ _ _ _ _ planned parts stops =>
        obtain ⟨rounds, hbegun, rfl, -⟩ := planned
        have hgo : ∀ r ∈ rounds.dropLast, r.answer.quit = false := by
          rcases rounds_of_reading hbegun.counts with rfl | ⟨r, rfl⟩ <;> simp
        exact ⟨rounds, .failed hgo (hfirst hbegun).1 parts stops (hfirst hbegun).2⟩
    | ok next e₁ =>
      rw [hact] at htake
      cases htake with
      | done performed covers =>
        obtain ⟨rounds, hbegun, rfl, rfl⟩ := performed
        cases hquit : rounds.any (·.answer.quit) with
        | true =>
          rw [hquit, if_pos rfl] at hact
          rw [runFrom_of_none hact]
          rcases rounds_of_reading hbegun.counts with rfl | ⟨last, rfl⟩
          · simp at hquit
          · have hgo : ∀ r ∈ ([] : List Round), r.answer.quit = false := by simp
            exact ⟨[last],
              .quit hgo (by simpa using hquit) (hfirst hbegun).1 covers (hfirst hbegun).2⟩
        | false =>
          simp only [hquit, Bool.false_eq_true, if_false] at hact
          rw [runFrom_of_some hact]
          have hgo : ∀ r ∈ rounds, r.answer.quit = false := by simpa using hquit
          obtain ⟨later, hlater⟩ := ih (pace.after t now) (covers.counts.opsPerFrame_eq.trans he)
          exact ⟨rounds ++ later, hlater.prepend hgo hbegun hact covers⟩

end Ending

/-! ### From a new emulator on -/

/-- A new emulator with its clock speed set, before its first title is shown. -/
def fresh (t : TimeScale τ) (ops : Nat) (i : Interpreter ρ) (f : σ) : Emulator ρ τ σ :=
  { Emulator.initial t i f with opsPerFrame := ops }

section New

variable {c : Int} {i : Interpreter ρ} {f front : σ}

omit [NumberSource ρ] in
theorem setUp_integer (t : TimeScale τ) (fe : FrontEnd σ) (c : Int) (i : Interpreter ρ) (f : σ) :
    setUp fe (.integer c) (Emulator.initial t i f) =
      onFront (fe.setTitle (perfTitle 0 0)) (fresh t (opsPerFrame c) i f) := by
  rw [setUp, if_neg (by simp)]
  rfl

theorem covers_fresh (t : TimeScale τ) (ops : Nat) (i : Interpreter ρ)
    (hset : fe.setTitle (perfTitle 0 0) f = .ok () front) :
    Covers fe (fresh t ops i f) [.title (perfTitle 0 0)] { fresh t ops i f with front } :=
  ⟨(Happens.title hset).follows, .of_title rfl rfl rfl⟩

/-- Whatever the clock shows, a run is a title and then rounds, up to a poll that asks to quit, the end
of the readings or the first event that fails; titles and counters add up to the frames and pictures. -/
theorem run_refines_steps (t : TimeScale τ) (fe : FrontEnd σ) (c : Int) (i : Interpreter ρ) (f : σ)
    (clock : List τ) :
    let ops := (max 1 (c / 60)).toNat
    let counts := Pace.frameCounts t .starting clock
    let events (rounds : List Round) := .title (perfTitle 0 0) :: rounds.flatMap (Round.events ops)
    let result (clock : List τ) :=
      (setUp fe (.integer c) >>= fun _ => run t fe clock) (Emulator.initial t i f)
    (∀ e, result clock = .ok () e → ∃ rounds last,
      (∀ r ∈ rounds, r.answer.quit = false) ∧ last.answer.quit = true ∧
        (rounds ++ [last]).map Round.frames <+: counts ∧
        Follows fe i f (events (rounds ++ [last])) e.interpreter e.front ∧
        e.interpreter = i.after ((events (rounds ++ [last])).flatMap Event.operations) ∧
        Balances ops (events (rounds ++ [last])) e) ∧
    ∀ failure e, result clock = .error failure e →
      (failure = .clockExhausted ∧ ∃ rounds,
        (∀ r ∈ rounds, r.answer.quit = false) ∧ rounds.map Round.frames = counts ∧
          Follows fe i f (events rounds) e.interpreter e.front ∧
          e.interpreter = i.after ((events rounds).flatMap Event.operations) ∧
          Balances ops (events rounds) e ∧
          ∃ pace, ∀ more, result (clock ++ more) = runFrom t fe pace more e) ∨
      ∃ rounds before event rest i' f',
        (∀ r ∈ rounds.dropLast, r.answer.quit = false) ∧ rounds.map Round.frames <+: counts ∧
          events rounds = before ++ event :: rest ∧
          Follows fe i f before i' f' ∧ i' = i.after (before.flatMap Event.operations) ∧
          Fails fe i' f' event failure e.interpreter e.front ∧ Balances ops before e := by
  intro ops counts events result
  cases hset : fe.setTitle (perfTitle 0 0) f with
  | error failure front =>
    have hresult : result clock = .error failure { fresh t ops i f with front } :=
      bind_of_error ((setUp_integer t fe c i f).trans (onFront_of_error hset))
    rw [hresult]
    refine ⟨nofun, ?_⟩
    rintro _ _ ⟨⟩
    refine Or.inr ⟨[], [], .title (perfTitle 0 0), [], i, f, nofun, List.nil_prefix, rfl, .refl i f,
      rfl, .title hset, ?_⟩
    exact Counts.balances (e := fresh t ops i f) (.of_same rfl rfl rfl) rfl rfl rfl
  | ok _ front =>
    have hresult (clock : List τ) :
        result clock = runFrom t fe .starting clock { fresh t ops i f with front } :=
      bind_of_ok ((setUp_integer t fe c i f).trans (onFront_of_ok hset))
    have htitle := covers_fresh t ops i hset
    have hops : ({ fresh t ops i f with front } : Emulator ρ τ σ).opsPerFrame = ops := rfl
    obtain ⟨rounds, hending⟩ := ending_runFrom t fe .starting clock hops
    constructor
    · intro e he
      rw [← hresult, he] at hending
      cases hending with
      | @quit rounds last _ goesOn quits counts covers =>
        have hcovers := htitle.trans covers
        exact ⟨rounds, last, goesOn, quits, counts, hcovers.follows, hcovers.follows.interpreter_eq,
          hcovers.counts.balances rfl rfl rfl⟩
    · intro failure e he
      have hrun := hending
      rw [← hresult, he] at hrun
      cases hrun with
      | @exhausted rounds _ pace' goesOn counts covers resumes =>
        have hcovers := htitle.trans covers
        refine Or.inl ⟨rfl, rounds, goesOn, counts, hcovers.follows, hcovers.follows.interpreter_eq,
          hcovers.counts.balances rfl rfl rfl, pace', fun more => ?_⟩
        rw [hresult, resumes]
      | @failed rounds before rest event _ _ goesOn counts parts stops =>
        have hstops := htitle.stops stops
        obtain ⟨i', f', hfollows, hfails⟩ := hstops.fails
        refine Or.inr ⟨rounds, .title (perfTitle 0 0) :: before, event, rest, i', f', goesOn, counts, ?_,
          hfollows, hfollows.interpreter_eq, hfails, hstops.counts.balances rfl rfl rfl⟩
        show Event.title (perfTitle 0 0) :: rounds.flatMap (Round.events ops) = _
        rw [parts]
        rfl

end New

end Emulation

end Chip8
