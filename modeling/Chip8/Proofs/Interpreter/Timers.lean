import Chip8.Proofs.Interpreter.Failure
import Chip8.Proofs.Interpreter.Footprint

/-!
# Timers

The two timers keep to one rule, each for itself.  A timer is set by its own word, which always succeeds,
and counts down to zero with every update; nothing else that a host or a program can do short of a reset
moves it (`reading_perform`).  So it shows what it was last set to, less one for every update since
(`timers_count_frames`).
-/

namespace Chip8

/-- One of the two timers. -/
inductive Timer
  | delay | sound
deriving DecidableEq

namespace Timer

/-- Where a timer stands. -/
def reading (t : Timer) (r : Registers) : Int :=
  match t with
  | delay => r.dt
  | sound => r.st

/-- The low byte of the word that sets a timer: `Fx15` or `Fx18`. -/
def setter : Timer → Nat
  | delay => 0x15
  | sound => 0x18

/-- Where the timers stand after a number of updates, if they stand at `v` before. -/
def elapsed (v : Int) (n : Nat) : Int := max 0 (v - n)

variable (t : Timer)

theorem reading_nonneg {r : Registers} (h : r.Bounded) : 0 ≤ t.reading r := by
  cases t with
  | delay => exact h.dt.1
  | sound => exact h.st.1

theorem elapsed_zero {v : Int} (h : 0 ≤ v) : elapsed v 0 = v := by
  unfold elapsed
  omega

theorem elapsed_add (v : Int) (n k : Nat) : elapsed (elapsed v n) k = elapsed v (n + k) := by
  unfold elapsed
  omega

theorem elapsed_one {v : Int} (h : 0 ≤ v) : elapsed v 1 = Interpreter.countDown v := by
  unfold elapsed Interpreter.countDown
  split <;> omega

theorem elapsed_countDown (v : Int) (n : Nat) :
    elapsed (Interpreter.countDown v) n = elapsed v (n + 1) := by
  unfold elapsed Interpreter.countDown
  split <;> omega

end Timer

theorem Machine.Footprint.hasSetter {ρ : Type} [NumberSource ρ] {d : Dialect} {c : Opcode}
    {m m' : Machine ρ} {fault : Option Fault} (h : m.Footprint d c m' fault) {t : Timer}
    (hne : t.reading m'.registers ≠ t.reading m.registers) : c.HasByte 0xF t.setter := by
  cases t with
  | delay => exact h.delay hne
  | sound => exact h.sound hne

namespace Interpreter

open Instruction Timer

variable {ρ : Type} [NumberSource ρ] {s : Interpreter ρ} {w : Opcode} {t : Timer}

/-- Whether a tick succeeds in setting a timer. -/
def SetsTimer (t : Timer) (s : Interpreter ρ) : Prop :=
  s.tick.fault = none ∧ ∃ w, s.fetch = .ok w ∧ w.HasByte 0xF t.setter

/-- What a timer counts from at the end of a history, and how many updates ago it stood there: what the
last successful setting has left, or where the timer stood at the start if the history has no setting. -/
inductive CountsFrom (t : Timer) (s : Interpreter ρ) (history : List Operation) : Int → Nat → Prop
  | start (unset : s.AtTicks (¬·.SetsTimer t) history) :
      CountsFrom t s history (t.reading s.machine.registers) (history.count .updateTimers)
  | setting (before rest : List Operation) (parts : history = before ++ .tick :: rest)
      (sets : (s.after before).SetsTimer t)
      (unset : (s.after before).tick.after.AtTicks (¬·.SetsTimer t) rest) :
      CountsFrom t s history (t.reading (s.after before).tick.after.machine.registers)
        (rest.count .updateTimers)

theorem not_setsTimer (hw : s.fetch = .ok w) (hb : ¬w.HasByte 0xF t.setter) : ¬s.SetsTimer t := by
  rintro ⟨-, w', hw', hb'⟩
  cases hw.symm.trans hw'
  exact hb hb'

theorem exists_countsFrom (t : Timer) (s : Interpreter ρ) (history : List Operation) :
    ∃ v n, CountsFrom t s history v n := by
  induction history generalizing s with
  | nil => exact ⟨_, _, .start (atTicks_nil _ s)⟩
  | cons op history ih =>
    obtain ⟨v, n, hrest⟩ := ih (s.perform op).after
    cases hrest with
    | setting before rest parts sets unset =>
      exact ⟨_, _, .setting (op :: before) rest (by rw [parts, List.cons_append]) sets unset⟩
    | start unset =>
      by_cases hset : op = .tick ∧ s.SetsTimer t
      · obtain ⟨rfl, hsets⟩ := hset
        exact ⟨_, _, .setting [] history rfl hsets unset⟩
      · exact ⟨_, _, .start (atTicks_cons.2 ⟨fun ht hs => hset ⟨ht, hs⟩, unset⟩)⟩

/-! ### One operation -/

/-- The word that sets a timer succeeds and sets it to the register that it names. -/
theorem tick_of_setter (h : s.machine.WellFormed) (hw : s.fetch = .ok w)
    (hb : w.HasByte 0xF t.setter) :
    s.tick.fault = none ∧
      t.reading s.tick.after.machine.registers = (s.machine.registers.v.get w.x).toNat := by
  cases t with
  | delay =>
    have hi : ofOpcode? w = some (setDelay w.x) := ofOpcode?_of_reads ⟨hb, rfl⟩
    obtain ⟨hok, hafter⟩ := tick_of_accepted h hw hi rfl rfl
    exact ⟨hok, by rw [hafter]; rfl⟩
  | sound =>
    have hi : ofOpcode? w = some (setSound w.x) := ofOpcode?_of_reads ⟨hb, rfl⟩
    obtain ⟨hok, hafter⟩ := tick_of_accepted h hw hi rfl rfl
    exact ⟨hok, by rw [hafter]; rfl⟩

/-- A tick that does not set a timer leaves it where it is, whether or not the tick fails. -/
theorem reading_tick_of_unset (h : s.machine.WellFormed) (hs : ¬s.SetsTimer t) :
    t.reading s.tick.after.machine.registers = t.reading s.machine.registers := by
  cases hw : s.fetch with
  | error f =>
    rw [tick_of_error hw]
  | ok w =>
    refine Decidable.byContradiction fun hne => ?_
    have hb : w.HasByte 0xF t.setter := by
      apply (footprint_tick h hw).2.hasSetter
      cases t <;> exact hne
    exact hs ⟨(tick_of_setter h hw hb).1, w, hw, hb⟩

/-- An update moves a timer one step, and any other operation that neither resets nor sets the timer
leaves it where it is. -/
theorem reading_perform (h : s.machine.WellFormed) {op : Operation} (hr : op ≠ .reset)
    (hs : op = .tick → ¬s.SetsTimer t) :
    t.reading (s.perform op).after.machine.registers =
      if op = .updateTimers then countDown (t.reading s.machine.registers)
      else t.reading s.machine.registers := by
  cases op with
  | reset => exact absurd rfl hr
  | tick => exact reading_tick_of_unset h (hs rfl)
  | updateTimers => cases t <;> rfl
  | setSwitch => rfl
  | loadRom rom =>
    rw [after_loadRom h]
    split <;> rfl
  | setKey key pressed =>
    obtain ⟨keypad, hk⟩ := after_setKey s key pressed
    rw [hk]
    rfl
  | setLit x y lit =>
    obtain ⟨frame, -, hl⟩ := after_setLit h x y lit
    rw [hl]
    rfl

/-! ### Histories -/

/-- A history that never sets a timer counts it down by its updates. -/
theorem reading_after (h : s.machine.WellFormed) {history : List Operation} (hr : .reset ∉ history)
    (hs : s.AtTicks (¬·.SetsTimer t) history) :
    t.reading (s.after history).machine.registers =
      elapsed (t.reading s.machine.registers) (history.count .updateTimers) := by
  induction history generalizing s with
  | nil => exact (elapsed_zero (reading_nonneg t h.registers)).symm
  | cons op history ih =>
    rw [List.mem_cons, not_or] at hr
    obtain ⟨hnow, hlater⟩ := atTicks_cons.1 hs
    have hstep := reading_perform h (Ne.symm hr.1) hnow
    rw [after_cons, ih (wellFormed_perform s op h) hr.2 hlater, hstep, List.count_cons]
    by_cases hop : op = .updateTimers
    · rw [if_pos hop, elapsed_countDown, if_pos (beq_iff_eq.2 hop)]
    · rw [if_neg hop, if_neg (mt beq_iff_eq.1 hop), Nat.add_zero]

theorem CountsFrom.reading_after (h : s.machine.WellFormed) {history : List Operation}
    (hr : .reset ∉ history) {v : Int} {n : Nat} (hc : CountsFrom t s history v n) :
    t.reading (s.after history).machine.registers = elapsed v n := by
  cases hc with
  | start unset => exact Interpreter.reading_after h hr unset
  | setting before rest parts sets unset =>
    subst parts
    simp only [List.mem_append, List.mem_cons, not_or] at hr
    have hu := after_induction (P := fun s => s.machine.WellFormed) wellFormed_perform h before
    rw [after_append, after_cons]
    exact Interpreter.reading_after (wellFormed_tick hu).1 hr.2.2 unset

theorem tick_of_getDelay (h : s.machine.WellFormed) (hw : s.fetch = .ok w)
    (hb : w.HasByte 0xF 0x07) :
    s.tick.fault = none ∧
      ((s.tick.after.machine.registers.v.get w.x).toNat : Int) = s.machine.registers.dt := by
  have hi : ofOpcode? w = some (getDelay w.x) := ofOpcode?_of_reads ⟨hb, rfl⟩
  have hdt := h.registers.dt
  obtain ⟨hok, hafter⟩ := tick_of_accepted h hw hi rfl rfl
  refine ⟨hok, ?_⟩
  simp only [hafter, machineAfter, registersAfter, Registers.get_setV, if_true, fetched]
  rw [UInt8.toNat_ofNat_of_lt' (by rw [UInt8.size]; omega)]
  omega

/-- In every reachable state and after every history without a reset, each timer stands where it was set
last, less one for every update since, and never below zero. -/
theorem timers_count_frames (hs : s.Reachable) {history : List Operation} (hr : .reset ∉ history) :
    let u := s.after history
    (∀ t : Timer, (∃ v n, CountsFrom t s history v n) ∧
      (∀ v n, CountsFrom t s history v n → t.reading u.machine.registers = max 0 (v - n)) ∧
      ∀ w, u.fetch = .ok w → w.HasByte 0xF t.setter → u.tick.fault = none ∧
        t.reading u.tick.after.machine.registers = (u.machine.registers.v.get w.x).toNat) ∧
    (∀ v n, CountsFrom .delay s history v n → ∀ w, u.fetch = .ok w → w.HasByte 0xF 0x07 →
      u.tick.fault = none ∧
        ((u.tick.after.machine.registers.v.get w.x).toNat : Int) = max 0 (v - n)) ∧
    ∀ v n, CountsFrom .sound s history v n → (u.soundOn = true ↔ (n : Int) < v) := by
  intro u
  have h := hs.wellFormed
  have hu : u.machine.WellFormed := (hs.after history).wellFormed
  refine ⟨fun t => ⟨exists_countsFrom t s history, ?_, fun w => tick_of_setter hu⟩, ?_, ?_⟩
  · intro v n hc
    exact hc.reading_after h hr
  · intro v n hc w hw hb
    obtain ⟨hok, hread⟩ := tick_of_getDelay hu hw hb
    exact ⟨hok, hread.trans (hc.reading_after h hr)⟩
  · intro v n hc
    have hst : u.machine.registers.st = max 0 (v - n) := hc.reading_after h hr
    rw [soundOn, decide_eq_true_iff, hst]
    omega

/-- Both timers are set to 5, the sound timer one update later.  Three updates after the delay timer was
set, an illegal word in between, `Fx07` reads 2 and the tone still sounds. -/
theorem timers_count_frames_past_failure :
    let s := (new Dialect.modern false (Cycle.mk [0] 0)).after
      [.loadRom [0x60, 0x05, 0xF0, 0x15, 0xF0, 0x18, 0xFF, 0xFF, 0xF1, 0x07], .tick]
    let u := s.after [.tick, .updateTimers, .tick, .setKey 3 true, .updateTimers, .tick, .updateTimers]
    u.tick.fault = none ∧ ((u.tick.after.machine.registers.v.get 1).toNat : Int) = 2 ∧
      u.soundOn = true := by
  intro s u
  have hs : s.Reachable := ⟨Dialect.modern, false, ⟨[0], 0⟩, _, rfl⟩
  obtain ⟨hword₀, hword₁, hword₂, hword₃, hok₀, hok₁, hdelay, hsound⟩ :
      s.fetch.toOption = some ⟨0xF015⟩ ∧
        (s.after [.tick, .updateTimers]).fetch.toOption = some ⟨0xF018⟩ ∧
        (s.after [.tick, .updateTimers, .tick, .setKey 3 true, .updateTimers]).fetch.toOption =
          some ⟨0xFFFF⟩ ∧
        u.fetch.toOption = some ⟨0xF107⟩ ∧ s.tick.fault = none ∧
        (s.after [.tick, .updateTimers]).tick.fault = none ∧
        s.tick.after.machine.registers.dt = 5 ∧
        (s.after [.tick, .updateTimers]).tick.after.machine.registers.st = 5 := by
    decide +kernel
  clear_value s
  have hrest : (s.after [.tick]).AtTicks (¬·.SetsTimer .delay)
      [.updateTimers, .tick, .setKey 3 true, .updateTimers, .tick, .updateTimers] := by
    simp only [atTicks_cons, atTicks_nil, and_true, reduceCtorEq, false_imp_iff, true_and,
      forall_const]
    exact ⟨not_setsTimer (fetch_eq_ok hword₁) fun hb => absurd hb.2 (by decide),
      not_setsTimer (fetch_eq_ok hword₂) fun hb => absurd hb.2 (by decide)⟩
  have hrest' : (s.after [.tick, .updateTimers, .tick]).AtTicks (¬·.SetsTimer .sound)
      [.setKey 3 true, .updateTimers, .tick, .updateTimers] := by
    simp only [atTicks_cons, atTicks_nil, and_true, reduceCtorEq, false_imp_iff, true_and,
      forall_const]
    exact not_setsTimer (fetch_eq_ok hword₂) fun hb => absurd hb.2 (by decide)
  have hcount := CountsFrom.setting [] _ rfl ⟨hok₀, _, fetch_eq_ok hword₀, by decide, by decide⟩ hrest
  have hcount' := CountsFrom.setting [.tick, .updateTimers] _ rfl
    ⟨hok₁, _, fetch_eq_ok hword₁, by decide, by decide⟩ hrest'
  have hreset : .reset ∉ [.tick, .updateTimers, .tick, .setKey 3 true, .updateTimers, .tick,
      Operation.updateTimers] := by decide
  obtain ⟨-, hreads, hsounds⟩ := timers_count_frames hs hreset
  obtain ⟨hok, hvalue⟩ := hreads _ _ hcount _ (fetch_eq_ok hword₃) ⟨by decide, by decide⟩
  refine ⟨hok, hvalue.trans ?_, (hsounds _ _ hcount').2 ?_⟩
  · show max 0 (s.tick.after.machine.registers.dt - 3) = 2
    rw [hdelay]
    rfl
  · show (2 : Int) < (s.after [.tick, .updateTimers]).tick.after.machine.registers.st
    rw [hsound]
    decide

end Interpreter

end Chip8
