import Chip8.Proofs.Emulator.Events

/-!
# When titles are due

A report is due from a certain time on (`Emulator.nextReport`).  The readings that begin rounds move
that time on, and nothing else that the emulator does in a round moves it (`Emulation.KeepsDue`).  So
whether a round shows a title depends on the readings alone (`TimeScale.dues`).
-/

namespace Chip8

namespace TimeScale

variable {τ : Type} (t : TimeScale τ)

/-- The time from which the next report is due, after a reading that begins a round. -/
def renewed (next now : τ) : τ := if t.le next now then t.nextSecond now else next

/-- Whether a report is due at each of the readings that begin rounds. -/
def dues : τ → List τ → List Bool
  | _, [] => []
  | next, now :: starts => t.le next now :: dues (t.renewed next now) starts

theorem dues_append (next : τ) (starts more : List τ) :
    t.dues next (starts ++ more) = t.dues next starts ++ t.dues (starts.foldl t.renewed next) more := by
  induction starts generalizing next with
  | nil => rfl
  | cons now starts ih => rw [List.cons_append, dues, dues, ih, List.foldl_cons, List.cons_append]

end TimeScale

namespace Emulation

open Instruction (of_bind_eq_ok)

variable {ρ τ σ : Type} {α β : Type} {fe : FrontEnd σ}

/-- A computation that answers leaves alone from when on the next report is due. -/
def KeepsDue (act : Emulation ρ τ σ α) : Prop :=
  ∀ e a e', act e = .ok a e' → e'.nextReport = e.nextReport

theorem keepsDue_pure (a : α) : KeepsDue (pure a : Emulation ρ τ σ α) := by
  rintro e _ _ ⟨⟩
  rfl

theorem keepsDue_throw (failure : Failure) : KeepsDue (throw failure : Emulation ρ τ σ α) := by
  rintro e _ _ ⟨⟩

theorem keepsDue_modify {g : Emulator ρ τ σ → Emulator ρ τ σ}
    (hg : ∀ e, (g e).nextReport = e.nextReport) : KeepsDue (modify g : Emulation ρ τ σ PUnit) := by
  rintro e _ _ ⟨⟩
  exact hg e

theorem keepsDue_onFront (act : EStateM Failure σ α) : KeepsDue (onFront act : Emulation ρ τ σ α) := by
  intro e a e' h
  unfold onFront at h
  split at h
  · cases h
    rfl
  · cases h

theorem KeepsDue.bind {act : Emulation ρ τ σ α} {next : α → Emulation ρ τ σ β} (h : KeepsDue act)
    (hnext : ∀ a, KeepsDue (next a)) : KeepsDue (act >>= next) := by
  intro e b e' hb
  obtain ⟨a, e₁, hact, hthen⟩ := of_bind_eq_ok hb
  exact (hnext a e₁ b e' hthen).trans (h e a e₁ hact)

theorem keepsDue_get_bind {next : Emulator ρ τ σ → Emulation ρ τ σ α} (h : ∀ e, KeepsDue (next e)) :
    KeepsDue (get >>= next) :=
  fun e => h e e

theorem keepsDue_raise (fault : Option Fault) : KeepsDue (raise fault : Emulation ρ τ σ Unit) := by
  cases fault with
  | none => exact keepsDue_pure ()
  | some fault => exact keepsDue_throw _

/-! ### Setting up -/

theorem keepsDue_setClockSpeed (speed : Setting) :
    KeepsDue (setClockSpeed speed : Emulation ρ τ σ Unit) := by
  unfold setClockSpeed
  split
  · exact keepsDue_modify fun _ => rfl
  · exact keepsDue_throw _

/-- An emulator that has been set up owes a report from the beginning of time on. -/
theorem nextReport_setUp {t : TimeScale τ} {speed : Setting} {i : Interpreter ρ} {f : σ}
    {e : Emulator ρ τ σ} (h : setUp fe speed (Emulator.initial t i f) = .ok () e) :
    e.nextReport = t.zero :=
  (keepsDue_setClockSpeed _).bind (fun _ => keepsDue_onFront _) _ _ _ h

/-! ### The parts of a round -/

theorem keepsDue_tick [NumberSource ρ] : KeepsDue (tick fe : Emulation ρ τ σ Unit) := by
  intro e a e' h
  rw [tick_apply] at h
  have hkept := (keepsDue_onFront _).bind (fun _ => keepsDue_raise _) _ _ _ h
  exact hkept

theorem keepsDue_ticks [NumberSource ρ] (n : Nat) : KeepsDue (ticks fe n : Emulation ρ τ σ Unit) := by
  induction n with
  | zero => exact keepsDue_pure ()
  | succ n ih => exact keepsDue_tick.bind fun _ => ih

theorem keepsDue_runFrame [NumberSource ρ] : KeepsDue (runFrame fe : Emulation ρ τ σ Unit) :=
  keepsDue_get_bind fun _ => (keepsDue_ticks _).bind fun _ => keepsDue_modify fun _ => rfl

theorem keepsDue_runFrames [NumberSource ρ] (n : Nat) :
    KeepsDue (runFrames fe n : Emulation ρ τ σ Unit) := by
  induction n with
  | zero => exact keepsDue_pure ()
  | succ n ih => exact keepsDue_runFrame.bind fun _ => ih

theorem keepsDue_present : KeepsDue (present fe : Emulation ρ τ σ Unit) :=
  keepsDue_get_bind fun _ => (keepsDue_onFront _).bind fun _ => keepsDue_modify fun _ => rfl

theorem keepsDue_pressKeys (keys : List (Int × Bool)) :
    KeepsDue (pressKeys keys : Emulation ρ τ σ Unit) := by
  induction keys with
  | nil => exact keepsDue_pure ()
  | cons change keys ih =>
    intro e a e' h
    cases hkey : e.interpreter.setKey change.1 change.2 with
    | error fault =>
      rw [pressKeys_of_error hkey] at h
      cases h
    | ok i =>
      rw [pressKeys_of_ok hkey] at h
      have hkept := ih _ _ _ h
      exact hkept

theorem keepsDue_processInputs : KeepsDue (processInputs fe : Emulation ρ τ σ Bool) :=
  (keepsDue_onFront _).bind fun _ => (keepsDue_pressKeys _).bind fun _ => keepsDue_pure _

theorem nextReport_reportIfDue {t : TimeScale τ} {now : τ} {e e' : Emulator ρ τ σ}
    (h : reportIfDue t fe now e = .ok () e') : e'.nextReport = t.renewed e.nextReport now := by
  rw [TimeScale.renewed]
  by_cases hdue : t.le e.nextReport now = true
  · rw [reportIfDue_of_due fe hdue] at h
    rw [if_pos hdue]
    have hcleared : KeepsDue
        (modify fun e => { e with executed := 0, presented := 0 } : Emulation ρ τ σ PUnit) :=
      keepsDue_modify fun _ => rfl
    have hkept := (keepsDue_onFront _).bind (fun _ => hcleared) _ _ _ h
    exact hkept
  · rw [reportIfDue_of_not_due fe hdue] at h
    cases h
    rw [if_neg hdue]

/-- After a round, the next report is due from the time on that its reading leads to. -/
theorem nextReport_round [NumberSource ρ] {t : TimeScale τ} {last owed now : τ}
    {e e' : Emulator ρ τ σ} {next : Option (Pace τ)} (h : round t fe last owed now e = .ok next e') :
    e'.nextReport = t.renewed e.nextReport now := by
  obtain ⟨_, e₁, hreport, hrest⟩ := of_bind_eq_ok h
  rw [← nextReport_reportIfDue hreport]
  refine KeepsDue.bind (keepsDue_runFrames _) (fun _ => ?_) _ _ _ hrest
  refine keepsDue_processInputs.bind fun quit => ?_
  cases quit with
  | true => exact keepsDue_pure _
  | false => exact keepsDue_present.bind fun _ => keepsDue_pure _

end Emulation

end Chip8
