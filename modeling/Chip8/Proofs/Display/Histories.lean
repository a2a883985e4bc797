import Chip8.Display.Basic
import Chip8.Proofs.Display.Mirror

/-!
# Displays through a history

A host gives a display titles and frames in any order.  What every event keeps, every history keeps
(`handleAll_induction`), and within a drawing, what every step keeps beside the mirror that follows the
steps (`takeAll_mirrors`).
-/

namespace Chip8

/-- What a host may ask of a display. -/
inductive DisplayEvent
  | title (text : String)
  /-- A frame is drawn, while the host's screen is as given. -/
  | draw (screen : Screen) (f : Frame)
deriving Inhabited

namespace Follower

variable {s : Follower} {last : Option Frame}

theorem Shows.size_eq (hs : s.Shows last) :
    s.canvas.width = s.mirror.width ∧ s.canvas.height = s.mirror.height := by
  cases last with
  | none =>
    cases hs
    exact ⟨rfl, rfl⟩
  | some g =>
    rw [hs.2.1, hs.2.2]
    exact ⟨rfl, rfl⟩

theorem Shows.size_nonneg (hs : s.Shows last) : 0 ≤ s.mirror.width ∧ 0 ≤ s.mirror.height := by
  cases last with
  | none =>
    cases hs
    exact ⟨Int.le_refl 0, Int.le_refl 0⟩
  | some g =>
    rw [hs.2.2]
    exact ⟨hs.1.width_nonneg, hs.1.height_nonneg⟩

end Follower

namespace DisplayEvent

/-- Whether the frame of an event, if it has one, is a picture. -/
def IsPicture : DisplayEvent → Prop
  | title _ => True
  | draw _ f => f.IsPicture

/-- The title given last, empty if none was. -/
def lastTitle (events : List DisplayEvent) : String :=
  events.foldl (fun last event => match event with
    | title text => text
    | draw _ _ => last) ""

/-- The frame drawn last. -/
def lastFrame (events : List DisplayEvent) : Option Frame :=
  events.foldl (fun last event => match event with
    | title _ => last
    | draw _ f => some f) none

/-- The size of the screen when a frame was drawn last. -/
def lastSize (events : List DisplayEvent) : Option (Int × Int) :=
  events.foldl (fun last event => match event with
    | title _ => last
    | draw screen _ => some (screen.rows, screen.columns)) none

variable (events : List DisplayEvent)

theorem lastTitle_title (text : String) : lastTitle (events ++ [title text]) = text :=
  List.foldl_append

theorem lastTitle_draw (screen : Screen) (f : Frame) :
    lastTitle (events ++ [draw screen f]) = lastTitle events :=
  List.foldl_append

theorem lastFrame_title (text : String) : lastFrame (events ++ [title text]) = lastFrame events :=
  List.foldl_append

theorem lastFrame_draw (screen : Screen) (f : Frame) :
    lastFrame (events ++ [draw screen f]) = some f :=
  List.foldl_append

theorem lastSize_title (text : String) : lastSize (events ++ [title text]) = lastSize events :=
  List.foldl_append

theorem lastSize_draw (screen : Screen) (f : Frame) :
    lastSize (events ++ [draw screen f]) = some (screen.rows, screen.columns) :=
  List.foldl_append

end DisplayEvent

namespace Display

open DisplayEvent

/-- Handles an event. -/
def handle (d : Display) : DisplayEvent → Effect Display
  | .title text => d.setTitle text
  | .draw screen f => d.draw screen f

/-- Handles events in turn, up to the first that fails. -/
def handleAll (d : Display) : List DisplayEvent → Effect Display
  | [] => ⟨d, [], none⟩
  | event :: events =>
    let e := d.handle event
    match e.failure with
    | some f => ⟨e.after, e.calls, some f⟩
    | none =>
      let rest := e.after.handleAll events
      ⟨rest.after, e.calls ++ rest.calls, rest.failure⟩

/-! ### Events -/

/-- What an event keeps, given the calls and events before it, every history keeps. -/
theorem handleAll_induction {P : Display → List HostCall → List DisplayEvent → Prop}
    (step : ∀ d calls events event, P d calls events → event.IsPicture →
      (d.handle event).failure = none ∧
        P (d.handle event).after (calls ++ (d.handle event).calls) (events ++ [event]))
    (d : Display) (calls : List HostCall) (before : List DisplayEvent) (start : P d calls before)
    {events : List DisplayEvent} (h : ∀ event ∈ events, event.IsPicture) :
    (d.handleAll events).failure = none ∧
      P (d.handleAll events).after (calls ++ (d.handleAll events).calls) (before ++ events) := by
  induction events generalizing d calls before with
  | nil =>
    rw [List.append_nil]
    exact ⟨rfl, (List.append_nil calls).symm ▸ start⟩
  | cons event events ih =>
    obtain ⟨hfailure, hevent⟩ := step d calls before event start (h event (by simp))
    have hrest := ih _ _ _ hevent fun e he => h e (List.mem_cons_of_mem event he)
    rw [List.append_assoc, List.append_assoc, List.singleton_append] at hrest
    simp only [handleAll, hfailure]
    exact hrest

/-! ### Steps of a drawing -/

variable {d : Display} {screen : Screen}

theorem takeAll_append {steps : List Drawing} (h : (d.takeAll screen steps).failure = none)
    (more : List Drawing) :
    d.takeAll screen (steps ++ more) =
      let rest := (d.takeAll screen steps).after.takeAll screen more
      ⟨rest.after, (d.takeAll screen steps).calls ++ rest.calls, rest.failure⟩ := by
  induction steps generalizing d with
  | nil => rfl
  | cons step steps ih =>
    rw [takeAll] at h
    rw [List.cons_append, takeAll, takeAll]
    cases hstep : (d.take screen step).failure with
    | some f =>
      simp only [hstep] at h
      cases h
    | none =>
      simp only [hstep] at h ⊢
      rw [ih h]
      simp only [List.append_assoc]

/-- What the steps of a drawing keep, given the calls before and the mirror that follows. -/
theorem takeAll_mirrors (screen : Screen) {P : Display → List HostCall → Mirror → Prop}
    (steps : List Drawing)
    (step : ∀ step ∈ steps, ∀ d calls m, P d calls m → (d.take screen step).failure = none ∧
      P (d.take screen step).after (calls ++ (d.take screen step).calls) (m.take step))
    {calls : List HostCall} {m : Mirror} (start : P d calls m) :
    (d.takeAll screen steps).failure = none ∧
      P (d.takeAll screen steps).after (calls ++ (d.takeAll screen steps).calls)
        (m.takeAll steps) := by
  induction steps generalizing d calls m with
  | nil => exact ⟨rfl, (List.append_nil calls).symm ▸ start⟩
  | cons s steps ih =>
    obtain ⟨hfailure, hs⟩ := step s (by simp) d calls m start
    have hrest := ih (fun s' hs' => step s' (List.mem_cons_of_mem s hs')) hs
    rw [List.append_assoc] at hrest
    simp only [takeAll, hfailure]
    exact hrest

/-- A drawing of a picture takes its steps on the new canvas. -/
theorem draw_eq_takeAll {m : Mirror} {last : Option Frame} {f : Frame}
    (hs : Follower.Shows ⟨d.canvas, m⟩ last) (hf : f.IsPicture) :
    d.draw screen f = (d.setCanvas (d.canvas.draw f).1).takeAll screen (d.canvas.draw f).2 :=
  if_pos ((hs.beginning f).covers hf)

theorem takeAll_singleton (step : Drawing) : d.takeAll screen [step] = d.take screen step := by
  rw [takeAll]
  cases hfailure : (d.take screen step).failure with
  | some f => simp only [← hfailure]
  | none => simp only [takeAll, List.append_nil, ← hfailure]

/-- What holds of the display once it has the size, and what the cells of the picture keep, holds of it
when the mirror shows the picture and only completion is left. -/
theorem draw_mirrors (d : Display) (screen : Screen) {P : Display → List HostCall → Mirror → Prop}
    {m : Mirror} {last : Option Frame} {f : Frame} (hs : Follower.Shows ⟨d.canvas, m⟩ last)
    (hf : f.IsPicture)
    (kept : f.width = d.canvas.width ∧ f.height = d.canvas.height →
      P (d.setCanvas (d.canvas.draw f).1) [] m)
    (resized : let e := (d.setCanvas (d.canvas.draw f).1).take screen (.resize f.width f.height)
      e.failure = none ∧ P e.after e.calls (.blank f.width f.height))
    (cell : ∀ x y, f.Holds x y → ∀ d calls m, P d calls m →
      let step := .cell x y (f.cell x y)
      (d.take screen step).failure = none ∧
        P (d.take screen step).after (calls ++ (d.take screen step).calls) (m.take step)) :
    ∃ d₁ drawn, P d₁ drawn (.ofFrame f) ∧
      d.draw screen f =
        let e := d₁.take screen (.complete (decide ((d.canvas.fit f).1.shown ≠ some f.snapshot)))
        ⟨e.after, drawn ++ e.calls, e.failure⟩ := by
  have hb := hs.beginning f
  have hdraw := Canvas.steps_draw d.canvas hf
  have hmirror := hb.mirror_eq hf
  rw [hdraw, Mirror.takeAll_append, Mirror.takeAll_append] at hmirror
  have hsizing :
      let e := (d.setCanvas (d.canvas.draw f).1).takeAll screen (d.canvas.fit f).2
      e.failure = none ∧ P e.after e.calls (m.takeAll (d.canvas.fit f).2) := by
    by_cases hfits : f.width = d.canvas.width ∧ f.height = d.canvas.height
    · rw [Canvas.fit_of_same _ hfits]
      exact ⟨rfl, kept hfits⟩
    · rw [Canvas.fit_of_ne _ hfits, takeAll_singleton]
      exact resized
  have hcells := takeAll_mirrors screen
    (((d.canvas.fit f).1.writes f).map fun p => .cell p.1 p.2 (f.cell p.1 p.2))
    (fun step hstep d calls m hP => by
      obtain ⟨p, hp, rfl⟩ := List.mem_map.1 hstep
      exact cell p.1 p.2 ((hb.mem_writes_iff hf).1 hp).1 d calls m hP) hsizing.2
  refine ⟨_, _, hmirror ▸ hcells.2, ?_⟩
  rw [draw_eq_takeAll hs hf, hdraw, List.append_assoc, takeAll_append hsizing.1,
    takeAll_append hcells.1, takeAll_singleton]
  simp only [List.append_assoc]

end Display

end Chip8
