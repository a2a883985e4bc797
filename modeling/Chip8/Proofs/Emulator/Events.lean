import Chip8.Emulator.Run
import Chip8.Proofs.Emulator.Figures
import Chip8.Proofs.Interpreter.Runs
import Mathlib.Algebra.GroupWithZero.Nat
import Mathlib.Data.List.Basic

/-!
# The events of a run

What the emulator does to the interpreter and the front end is a list of events: ticks, timer updates,
polls, pictures presented, and titles.  An event happens (`Happens`) or fails (`Fails`), and a list of
events leads from one interpreter and front end to another (`Follows`), without a clock and without
counters.

A computation performs lists of events (`Performs`) if it does those of one list and answers, or a part
of one, and then fails with the event that comes next.  Either way the counters and the figures in the
titles shown add up to what was done (`Counts`).
-/

namespace Chip8

/-- The operations that pass changes of keys on. -/
def Operation.ofKeys (keys : List (Int × Bool)) : List Operation :=
  keys.map fun k => .setKey k.1 k.2

/-- Prints a line if there is one. -/
def FrontEnd.printLine {σ : Type} (fe : FrontEnd σ) : Option String → EStateM Failure σ Unit
  | none => pure ()
  | some line => fe.print line

namespace Emulation

open Instruction (bind_of_ok bind_of_error)

/-- A thing that the emulator does. -/
inductive Event
  /-- The front end is given a title. -/
  | title (text : String)
  | tick
  | timers
  /-- The front end is asked for input, and the keys of its answer are passed on. -/
  | poll (answer : Poll)
  | present
deriving DecidableEq

namespace Event

/-- What an event is for the interpreter. -/
def operations : Event → List Operation
  | .tick => [.tick]
  | .timers => [.updateTimers]
  | .poll answer => Operation.ofKeys answer.keys
  | _ => []

/-- The figure in front of a word, in a title. -/
def figure? (word : String) : Event → Option Nat
  | .title text => Chip8.figure? word text
  | _ => none

end Event

/-- The figures in front of a word, in the titles among events. -/
def figures (word : String) (events : List Event) : List Nat := events.filterMap (Event.figure? word)

theorem figures_append (word : String) (events more : List Event) :
    figures word (events ++ more) = figures word events ++ figures word more :=
  List.filterMap_append

theorem figures_fps (pictures operations : Nat) :
    figures "FPS," [.title (perfTitle pictures operations)] = [pictures] :=
  List.filterMap_cons_some (figure?_fps pictures operations)

theorem figures_ops (pictures operations : Nat) :
    figures "OPS" [.title (perfTitle pictures operations)] = [operations] :=
  List.filterMap_cons_some (figure?_ops pictures operations)

variable {ρ τ σ : Type}

section Follows

variable [NumberSource ρ]

/-- An event happens to an interpreter and a front end. -/
inductive Happens (fe : FrontEnd σ) (i : Interpreter ρ) (f : σ) :
    Event → Interpreter ρ → σ → Prop
  | title {text : String} {f' : σ} (hset : fe.setTitle text f = .ok () f') :
      Happens fe i f (.title text) i f'
  | tick {f' : σ} (hprint : fe.printLine i.tick.printed f = .ok () f')
      (hfault : i.tick.fault = none) : Happens fe i f .tick i.tick.after f'
  | timers : Happens fe i f .timers i.updateTimers f
  | poll {answer : Poll} {f' : σ} (hpoll : fe.poll f = .ok answer f')
      (hkeys : ∀ r ∈ i.reactions (Operation.ofKeys answer.keys), r.fault = none) :
      Happens fe i f (.poll answer) (i.after (Operation.ofKeys answer.keys)) f'
  | present {f' : σ} (hshow : fe.present i.machine.frame f = .ok () f') :
      Happens fe i f .present i f'

/-- An event fails, and leaves an interpreter and a front end. -/
inductive Fails (fe : FrontEnd σ) (i : Interpreter ρ) (f : σ) :
    Event → Failure → Interpreter ρ → σ → Prop
  | title {text : String} {failure : Failure} {f' : σ}
      (hset : fe.setTitle text f = .error failure f') : Fails fe i f (.title text) failure i f'
  | print {failure : Failure} {f' : σ}
      (hprint : fe.printLine i.tick.printed f = .error failure f') :
      Fails fe i f .tick failure i.tick.after f'
  | tick {fault : Fault} {f' : σ} (hprint : fe.printLine i.tick.printed f = .ok () f')
      (hfault : i.tick.fault = some fault) : Fails fe i f .tick (.fault fault) i.tick.after f'
  | poll {answer : Poll} {failure : Failure} {f' : σ} (hpoll : fe.poll f = .error failure f') :
      Fails fe i f (.poll answer) failure i f'
  /-- The interpreter refuses a key. -/
  | key {answer : Poll} {before later : List (Int × Bool)} {key : Int} {pressed : Bool}
      {fault : Fault} {f' : σ} (hpoll : fe.poll f = .ok answer f')
      (hkeys : answer.keys = before ++ (key, pressed) :: later)
      (hbefore : ∀ r ∈ i.reactions (Operation.ofKeys before), r.fault = none)
      (hkey : (i.after (Operation.ofKeys before)).setKey key pressed = .error fault) :
      Fails fe i f (.poll answer) (.fault fault) (i.after (Operation.ofKeys before)) f'
  | present {failure : Failure} {f' : σ} (hshow : fe.present i.machine.frame f = .error failure f') :
      Fails fe i f .present failure i f'

/-- Events lead from an interpreter and a front end to others. -/
inductive Follows (fe : FrontEnd σ) :
    Interpreter ρ → σ → List Event → Interpreter ρ → σ → Prop
  | refl (i : Interpreter ρ) (f : σ) : Follows fe i f [] i f
  | next {i i₁ i₂ : Interpreter ρ} {f f₁ f₂ : σ} {event : Event} {events : List Event}
      (first : Happens fe i f event i₁ f₁) (rest : Follows fe i₁ f₁ events i₂ f₂) :
      Follows fe i f (event :: events) i₂ f₂

variable {fe : FrontEnd σ} {i i₁ i₂ : Interpreter ρ} {f f₁ f₂ : σ} {event : Event}
  {events more : List Event}

theorem Happens.follows (h : Happens fe i f event i₁ f₁) : Follows fe i f [event] i₁ f₁ :=
  .next h (.refl i₁ f₁)

theorem Follows.trans (h : Follows fe i f events i₁ f₁) (h' : Follows fe i₁ f₁ more i₂ f₂) :
    Follows fe i f (events ++ more) i₂ f₂ := by
  induction h with
  | refl => exact h'
  | next first _ ih => exact .next first (ih h')

theorem Happens.interpreter_eq (h : Happens fe i f event i₁ f₁) :
    i₁ = i.after event.operations := by
  cases h <;> rfl

theorem Follows.interpreter_eq (h : Follows fe i f events i₁ f₁) :
    i₁ = i.after (events.flatMap Event.operations) := by
  induction h with
  | refl => rfl
  | next first _ ih =>
    rw [ih, first.interpreter_eq, List.flatMap_cons, Interpreter.after_append]

end Follows

/-! ### Counters -/

/-- The counters stand at what events did since the last title, and frames are as long as before. -/
structure Counts (e : Emulator ρ τ σ) (events : List Event) (e' : Emulator ρ τ σ) : Prop where
  opsPerFrame_eq : e'.opsPerFrame = e.opsPerFrame
  executed_eq : (figures "OPS" events).sum + e'.executed =
    e.executed + e.opsPerFrame * events.count .timers
  presented_eq : (figures "FPS," events).sum + e'.presented = e.presented + events.count .present

theorem Counts.of_same {e e' : Emulator ρ τ σ} (hops : e'.opsPerFrame = e.opsPerFrame)
    (hexecuted : e'.executed = e.executed) (hpresented : e'.presented = e.presented) :
    Counts e [] e' :=
  ⟨hops, (Nat.zero_add _).trans hexecuted, (Nat.zero_add _).trans hpresented⟩

theorem Counts.trans {e e₁ e₂ : Emulator ρ τ σ} {events more : List Event}
    (h : Counts e events e₁) (h' : Counts e₁ more e₂) : Counts e (events ++ more) e₂ := by
  have hops := h.executed_eq
  have hops' := h'.executed_eq
  have hpictures := h.presented_eq
  have hpictures' := h'.presented_eq
  rw [h.opsPerFrame_eq] at hops'
  refine ⟨h'.opsPerFrame_eq.trans h.opsPerFrame_eq, ?_, ?_⟩
  · rw [figures_append, List.sum_append, List.count_append, Nat.mul_add]
    omega
  · rw [figures_append, List.sum_append, List.count_append]
    omega

/-- A title that shows the counters, which then start anew. -/
theorem Counts.of_title {e e' : Emulator ρ τ σ} (hops : e'.opsPerFrame = e.opsPerFrame)
    (hexecuted : e'.executed = 0) (hpresented : e'.presented = 0) :
    Counts e [.title (perfTitle e.presented e.executed)] e' := by
  refine ⟨hops, ?_, ?_⟩
  · rw [figures_ops, hexecuted]
    rfl
  · rw [figures_fps, hpresented]
    rfl

/-- The figures in all titles and the counters add up to the frames completed and the pictures
presented. -/
structure Balances (ops : Nat) (events : List Event) (e : Emulator ρ τ σ) : Prop where
  operations_eq : (figures "OPS" events).sum + e.executed = ops * events.count .timers
  pictures_eq : (figures "FPS," events).sum + e.presented = events.count .present

/-- If the counters stood at nothing, they add up with the titles. -/
theorem Counts.balances {ops : Nat} {events : List Event} {e e' : Emulator ρ τ σ}
    (h : Counts e events e') (hops : e.opsPerFrame = ops) (hexecuted : e.executed = 0)
    (hpresented : e.presented = 0) : Balances ops events e' := by
  refine ⟨?_, ?_⟩
  · rw [h.executed_eq, hops, hexecuted, Nat.zero_add]
  · rw [h.presented_eq, hpresented, Nat.zero_add]

/-! ### Computing -/

section Computing

variable {e : Emulator ρ τ σ} {failure : Failure} {α : Type}

theorem get_bind (next : Emulator ρ τ σ → Emulation ρ τ σ α) (e : Emulator ρ τ σ) :
    (get >>= next) e = next e e := rfl

theorem modify_bind (g : Emulator ρ τ σ → Emulator ρ τ σ) (next : PUnit → Emulation ρ τ σ α)
    (e : Emulator ρ τ σ) : (modify g >>= next) e = next ⟨⟩ (g e) := rfl

theorem onFront_of_ok {act : EStateM Failure σ α} {a : α} {front : σ}
    (h : act e.front = .ok a front) : onFront act e = .ok a { e with front } := by
  simp only [onFront, h]

theorem onFront_of_error {act : EStateM Failure σ α} {front : σ}
    (h : act e.front = .error failure front) : onFront act e = .error failure { e with front } := by
  simp only [onFront, h]

/-- Stops with a fault if there is one. -/
def raise : Option Fault → Emulation ρ τ σ Unit
  | none => pure ()
  | some fault => throw (.fault fault)

theorem pressKeys_of_error {key : Int} {pressed : Bool} {fault : Fault}
    (hkey : e.interpreter.setKey key pressed = .error fault) (keys : List (Int × Bool)) :
    pressKeys ((key, pressed) :: keys) e = .error (.fault fault) e := by
  rw [pressKeys, get_bind, hkey]
  rfl

theorem pressKeys_of_ok {key : Int} {pressed : Bool} {i : Interpreter ρ}
    (hkey : e.interpreter.setKey key pressed = .ok i) (keys : List (Int × Bool)) :
    pressKeys ((key, pressed) :: keys) e = pressKeys keys { e with interpreter := i } := by
  rw [pressKeys, get_bind, hkey]
  rfl

theorem reportIfDue_of_due {t : TimeScale τ} {now : τ} (fe : FrontEnd σ)
    (hdue : t.le e.nextReport now = true) :
    reportIfDue t fe now e = (onFront (fe.setTitle (perfTitle e.presented e.executed)) >>= fun _ =>
      modify fun e => { e with executed := 0, presented := 0 } : Emulation ρ τ σ Unit)
        { e with nextReport := t.nextSecond now } := by
  rw [reportIfDue, get_bind, if_pos hdue]
  rfl

theorem reportIfDue_of_not_due {t : TimeScale τ} {now : τ} (fe : FrontEnd σ)
    (hdue : ¬t.le e.nextReport now = true) : reportIfDue t fe now e = .ok () e := by
  rw [reportIfDue, get_bind, if_neg hdue]
  rfl

end Computing

/-! ### Computations that perform events -/

variable [NumberSource ρ]

/-- Events lead from one emulator to another. -/
structure Covers (fe : FrontEnd σ) (e : Emulator ρ τ σ) (events : List Event)
    (e' : Emulator ρ τ σ) : Prop where
  follows : Follows fe e.interpreter e.front events e'.interpreter e'.front
  counts : Counts e events e'

/-- After events another one fails, and leaves an emulator. -/
structure Stops (fe : FrontEnd σ) (e : Emulator ρ τ σ) (events : List Event) (event : Event)
    (failure : Failure) (e' : Emulator ρ τ σ) : Prop where
  fails : ∃ i f, Follows fe e.interpreter e.front events i f ∧
    Fails fe i f event failure e'.interpreter e'.front
  counts : Counts e events e'

/-- What comes of a computation that performs one of the lists of events `L`. -/
inductive Course {α : Type} (fe : FrontEnd σ) (e : Emulator ρ τ σ) (L : α → List Event → Prop) :
    EStateM.Result Failure (Emulator ρ τ σ) α → Prop
  | done {a : α} {events : List Event} {e' : Emulator ρ τ σ} (performed : L a events)
      (covers : Covers fe e events e') : Course fe e L (.ok a e')
  | stopped {a : α} {whole events rest : List Event} {event : Event} {failure : Failure}
      {e' : Emulator ρ τ σ} (planned : L a whole) (parts : whole = events ++ event :: rest)
      (stops : Stops fe e events event failure e') : Course fe e L (.error failure e')

/-- A computation performs one of the lists of events `L`, for its answer. -/
def Performs {α : Type} (fe : FrontEnd σ) (ops : Nat) (act : Emulation ρ τ σ α)
    (L : α → List Event → Prop) : Prop :=
  ∀ e, e.opsPerFrame = ops → Course fe e L (act e)

section Rules

variable {fe : FrontEnd σ} {ops : Nat} {e e₁ e₂ : Emulator ρ τ σ} {events more : List Event}
  {event : Event} {failure : Failure} {α β : Type}

theorem Covers.refl (fe : FrontEnd σ) (e : Emulator ρ τ σ) : Covers fe e [] e :=
  ⟨.refl _ _, .of_same rfl rfl rfl⟩

theorem Covers.trans (h : Covers fe e events e₁) (h' : Covers fe e₁ more e₂) :
    Covers fe e (events ++ more) e₂ :=
  ⟨h.follows.trans h'.follows, h.counts.trans h'.counts⟩

theorem Covers.stops (h : Covers fe e events e₁) (h' : Stops fe e₁ more event failure e₂) :
    Stops fe e (events ++ more) event failure e₂ := by
  obtain ⟨i, f, hfollows, hfails⟩ := h'.fails
  exact ⟨⟨i, f, h.follows.trans hfollows, hfails⟩, h.counts.trans h'.counts⟩

/-- An event that fails leaves the counters alone. -/
theorem Fails.stops (h : Fails fe e.interpreter e.front event failure e₁.interpreter e₁.front)
    (hcounts : Counts e [] e₁) : Stops fe e [] event failure e₁ :=
  ⟨⟨_, _, .refl _ _, h⟩, hcounts⟩

theorem performs_pure (a : α) :
    Performs fe ops (pure a : Emulation ρ τ σ α) fun b events => b = a ∧ events = [] :=
  fun e _ => .done ⟨rfl, rfl⟩ (.refl fe e)

theorem Course.mono {L M : α → List Event → Prop}
    {result : EStateM.Result Failure (Emulator ρ τ σ) α} (h : Course fe e L result)
    (hLM : ∀ a events, L a events → M a events) : Course fe e M result := by
  cases h with
  | done performed covers => exact .done (hLM _ _ performed) covers
  | stopped planned parts stops => exact .stopped (hLM _ _ planned) parts stops

theorem Performs.mono {act : Emulation ρ τ σ α} {L M : α → List Event → Prop}
    (h : Performs fe ops act L) (hLM : ∀ a events, L a events → M a events) :
    Performs fe ops act M :=
  fun e he => (h e he).mono hLM

/-- Events of one computation and then of the next.  The next must have some list of events, or a
failure of the first would be part of none. -/
theorem Course.bind {act : Emulation ρ τ σ α} {next : α → Emulation ρ τ σ β}
    {L : α → List Event → Prop} {M : α → β → List Event → Prop} (h : Course fe e L (act e))
    (he : e.opsPerFrame = ops) (hnext : ∀ a, Performs fe ops (next a) (M a))
    (hsome : ∀ a, ∃ b events, M a b events) :
    Course fe e (fun b events => ∃ a first rest, L a first ∧ M a b rest ∧ events = first ++ rest)
      ((act >>= next) e) := by
  show Course fe e _ (EStateM.bind act next e)
  unfold EStateM.bind
  generalize act e = result at h ⊢
  cases h with
  | @done a first e₁ performed covers =>
    have hthen := hnext a e₁ (covers.counts.opsPerFrame_eq.trans he)
    dsimp only
    generalize next a e₁ = result at hthen ⊢
    cases hthen with
    | done performed' covers' =>
      exact .done ⟨a, first, _, performed, performed', rfl⟩ (covers.trans covers')
    | @stopped b whole events rest event _ _ planned parts stops =>
      have hparts : first ++ whole = (first ++ events) ++ event :: rest := by
        rw [parts, List.append_assoc]
      exact .stopped ⟨a, first, whole, performed, planned, rfl⟩ hparts (covers.stops stops)
  | @stopped a whole events rest event _ _ planned parts stops =>
    obtain ⟨b, more, hmore⟩ := hsome a
    have hparts : whole ++ more = events ++ event :: (rest ++ more) := by
      rw [parts, List.append_assoc, List.cons_append]
    exact .stopped ⟨a, whole, more, planned, hmore, rfl⟩ hparts stops

theorem Performs.bind {act : Emulation ρ τ σ α} {next : α → Emulation ρ τ σ β}
    {L : α → List Event → Prop} {M : α → β → List Event → Prop} (h : Performs fe ops act L)
    (hnext : ∀ a, Performs fe ops (next a) (M a)) (hsome : ∀ a, ∃ b events, M a b events) :
    Performs fe ops (act >>= next) fun b events =>
      ∃ a first rest, L a first ∧ M a b rest ∧ events = first ++ rest :=
  fun e he => (h e he).bind he hnext hsome

end Rules

/-! ### What the parts of a round perform -/

theorem tick_apply (fe : FrontEnd σ) (e : Emulator ρ τ σ) :
    tick fe e = (onFront (fe.printLine e.interpreter.tick.printed) >>= fun _ =>
      raise e.interpreter.tick.fault) { e with interpreter := e.interpreter.tick.after } := by
  rw [tick, get_bind, modify_bind]
  cases e.interpreter.tick.printed <;> cases e.interpreter.tick.fault <;> rfl

theorem performs_tick (fe : FrontEnd σ) (ops : Nat) :
    Performs fe ops (tick fe : Emulation ρ τ σ Unit) fun _ events => events = [.tick] := by
  intro e he
  rw [tick_apply]
  cases hprint : fe.printLine e.interpreter.tick.printed e.front with
  | error failure front =>
    rw [bind_of_error (onFront_of_error (e := { e with interpreter := e.interpreter.tick.after }) hprint)]
    exact .stopped (a := ()) rfl rfl (Fails.stops (.print hprint) (.of_same rfl rfl rfl))
  | ok _ front =>
    rw [bind_of_ok (onFront_of_ok (e := { e with interpreter := e.interpreter.tick.after }) hprint)]
    cases hfault : e.interpreter.tick.fault with
    | some fault =>
      exact .stopped (a := ()) rfl rfl
        (Fails.stops (.tick hprint hfault) (.of_same rfl rfl rfl))
    | none =>
      exact .done rfl ⟨(Happens.tick hprint hfault).follows, rfl, Nat.zero_add _, Nat.zero_add _⟩

theorem performs_ticks (fe : FrontEnd σ) (ops n : Nat) :
    Performs fe ops (ticks fe n : Emulation ρ τ σ Unit) fun _ events =>
      events = List.replicate n .tick := by
  induction n with
  | zero => exact (performs_pure ()).mono fun _ _ h => h.2
  | succ n ih =>
    refine ((performs_tick fe ops).bind (fun _ => ih) fun _ => ⟨(), _, rfl⟩).mono ?_
    rintro _ _ ⟨_, _, _, rfl, rfl, rfl⟩
    rfl

/-- The events of a frame. -/
def frame (ops : Nat) : List Event := List.replicate ops .tick ++ [.timers]

theorem performs_timers (fe : FrontEnd σ) (ops : Nat) :
    Performs fe ops (modify fun e => { e with
      interpreter := e.interpreter.updateTimers
      executed := e.executed + ops } : Emulation ρ τ σ Unit) fun _ events => events = [.timers] := by
  intro e he
  refine .done rfl ⟨Happens.timers.follows, rfl, ?_, Nat.zero_add _⟩
  show 0 + (e.executed + ops) = e.executed + e.opsPerFrame * 1
  rw [he, Nat.mul_one, Nat.zero_add]

theorem performs_runFrame (fe : FrontEnd σ) (ops : Nat) :
    Performs fe ops (runFrame fe : Emulation ρ τ σ Unit) fun _ events => events = frame ops := by
  have hframe := (performs_ticks (ρ := ρ) (τ := τ) fe ops ops).bind (fun _ => performs_timers fe ops)
    fun _ => ⟨(), _, rfl⟩
  intro e he
  subst he
  refine (hframe.mono ?_) e rfl
  rintro _ _ ⟨_, _, _, rfl, rfl, rfl⟩
  rfl

theorem performs_runFrames (fe : FrontEnd σ) (ops n : Nat) :
    Performs fe ops (runFrames fe n : Emulation ρ τ σ Unit) fun _ events =>
      events = (List.replicate n (frame ops)).flatten := by
  induction n with
  | zero => exact (performs_pure ()).mono fun _ _ h => h.2
  | succ n ih =>
    refine ((performs_runFrame fe ops).bind (fun _ => ih) fun _ => ⟨(), _, rfl⟩).mono ?_
    rintro _ _ ⟨_, _, _, rfl, rfl, rfl⟩
    rfl

/-- The event of a title, if there is one. -/
def titles : Option (Nat × Nat) → List Event
  | none => []
  | some (pictures, operations) => [.title (perfTitle pictures operations)]

/-- A title is shown iff a report is due. -/
theorem course_reportIfDue (t : TimeScale τ) (fe : FrontEnd σ) (now : τ) (e : Emulator ρ τ σ) :
    Course fe e
      (fun _ events => ∃ report, report.isSome = t.le e.nextReport now ∧ events = titles report)
      (reportIfDue t fe now e) := by
  by_cases hdue : t.le e.nextReport now = true
  · have hsome : (some (e.presented, e.executed)).isSome = t.le e.nextReport now := hdue.symm
    rw [reportIfDue_of_due fe hdue]
    cases hset : fe.setTitle (perfTitle e.presented e.executed) e.front with
    | error failure front =>
      rw [bind_of_error (onFront_of_error (e := { e with nextReport := t.nextSecond now }) hset)]
      exact .stopped (a := ()) ⟨some (e.presented, e.executed), hsome, rfl⟩ rfl
        (Fails.stops (.title hset) (.of_same rfl rfl rfl))
    | ok _ front =>
      rw [bind_of_ok (onFront_of_ok (e := { e with nextReport := t.nextSecond now }) hset)]
      exact .done ⟨some (e.presented, e.executed), hsome, rfl⟩
        ⟨(Happens.title hset).follows, .of_title rfl rfl rfl⟩
  · rw [reportIfDue_of_not_due fe hdue]
    exact .done ⟨none, (Bool.not_eq_true _ ▸ hdue).symm, rfl⟩ (.refl fe e)

theorem performs_present (fe : FrontEnd σ) (ops : Nat) :
    Performs fe ops (present fe : Emulation ρ τ σ Unit) fun _ events => events = [.present] := by
  intro e he
  have hstart : present fe e = (onFront (fe.present e.interpreter.machine.frame) >>= fun _ =>
      modify fun e => { e with presented := e.presented + 1 } : Emulation ρ τ σ Unit) e := rfl
  rw [hstart]
  cases hshow : fe.present e.interpreter.machine.frame e.front with
  | error failure front =>
    rw [bind_of_error (onFront_of_error hshow)]
    exact .stopped (a := ()) rfl rfl (Fails.stops (.present hshow) (.of_same rfl rfl rfl))
  | ok _ front =>
    rw [bind_of_ok (onFront_of_ok hshow)]
    refine .done rfl ⟨(Happens.present hshow).follows, rfl, Nat.zero_add _, ?_⟩
    exact Nat.zero_add _

/-- What comes of passing keys on: all are accepted, or one is refused after some were accepted. -/
theorem pressKeys_cases (e : Emulator ρ τ σ) (keys : List (Int × Bool)) :
    (pressKeys keys e = .ok () { e with interpreter := e.interpreter.after (Operation.ofKeys keys) } ∧
        ∀ r ∈ e.interpreter.reactions (Operation.ofKeys keys), r.fault = none) ∨
      ∃ before key pressed later fault, keys = before ++ (key, pressed) :: later ∧
        (∀ r ∈ e.interpreter.reactions (Operation.ofKeys before), r.fault = none) ∧
        (e.interpreter.after (Operation.ofKeys before)).setKey key pressed = .error fault ∧
        pressKeys keys e = .error (.fault fault)
          { e with interpreter := e.interpreter.after (Operation.ofKeys before) } := by
  induction keys generalizing e with
  | nil => exact Or.inl ⟨rfl, fun r hr => absurd hr List.not_mem_nil⟩
  | cons k keys ih =>
    obtain ⟨key, pressed⟩ := k
    cases hkey : e.interpreter.setKey key pressed with
    | error fault =>
      exact Or.inr ⟨[], key, pressed, keys, fault, rfl, fun r hr => absurd hr List.not_mem_nil,
        hkey, pressKeys_of_error hkey keys⟩
    | ok i =>
      have hperform : e.interpreter.perform (.setKey key pressed) = ⟨i, none, none⟩ := by
        rw [Interpreter.perform, hkey]
        rfl
      have hafter (keys : List (Int × Bool)) :
          e.interpreter.after (Operation.ofKeys ((key, pressed) :: keys)) =
            i.after (Operation.ofKeys keys) := by
        show (e.interpreter.perform (.setKey key pressed)).after.after _ = _
        rw [hperform]
        rfl
      have hnone {keys : List (Int × Bool)}
          (h : ∀ r ∈ i.reactions (Operation.ofKeys keys), r.fault = none) :
          ∀ r ∈ e.interpreter.reactions (Operation.ofKeys ((key, pressed) :: keys)),
            r.fault = none := by
        show ∀ r ∈ e.interpreter.perform (.setKey key pressed) :: _, r.fault = none
        rw [hperform]
        exact List.forall_mem_cons.2 ⟨rfl, h⟩
      rw [pressKeys_of_ok hkey]
      rcases ih { e with interpreter := i } with ⟨hok, hall⟩ |
        ⟨before, key', pressed', later, fault, hkeys, hbefore, hrefused, herror⟩
      · refine Or.inl ⟨?_, hnone hall⟩
        rw [hok, hafter]
      · refine Or.inr ⟨(key, pressed) :: before, key', pressed', later, fault, ?_, hnone hbefore, ?_, ?_⟩
        · rw [hkeys, List.cons_append]
        · rw [hafter]
          exact hrefused
        · rw [herror, hafter]

theorem performs_processInputs (fe : FrontEnd σ) (ops : Nat) :
    Performs fe ops (processInputs fe : Emulation ρ τ σ Bool) fun quit events =>
      ∃ answer, answer.quit = quit ∧ events = [.poll answer] := by
  intro e he
  have hstart : processInputs fe e = (onFront fe.poll >>= fun answer =>
      pressKeys answer.keys >>= fun _ => pure answer.quit : Emulation ρ τ σ Bool) e := rfl
  rw [hstart]
  cases hpoll : fe.poll e.front with
  | error failure front =>
    rw [bind_of_error (onFront_of_error hpoll)]
    exact .stopped ⟨default, rfl, rfl⟩ rfl (Fails.stops (.poll hpoll) (.of_same rfl rfl rfl))
  | ok answer front =>
    rw [bind_of_ok (onFront_of_ok hpoll)]
    rcases pressKeys_cases { e with front } answer.keys with ⟨hok, hall⟩ |
      ⟨before, key, pressed, later, fault, hkeys, hbefore, hrefused, herror⟩
    · rw [bind_of_ok hok]
      exact .done ⟨answer, rfl, rfl⟩
        ⟨(Happens.poll hpoll hall).follows, rfl, Nat.zero_add _, Nat.zero_add _⟩
    · rw [bind_of_error herror]
      exact .stopped ⟨answer, rfl, rfl⟩ rfl
        (Fails.stops (.key hpoll hkeys hbefore hrefused) (.of_same rfl rfl rfl))

end Emulation

end Chip8
