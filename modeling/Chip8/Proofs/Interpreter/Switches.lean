import Chip8.Proofs.Instruction.Switches
import Chip8.Proofs.Interpreter.Bounds

/-!
# What the switches can make a difference to

An interpreter with its switches in other positions (`Interpreter.switched`) performs every operation
alike, as long as no tick executes a word that one of these switches belongs to (`perform_switched`); so
it does with a whole history (`reactions_switched`).  A tick that does execute such a word still fails
alike, and leaves machines that agree as `Machine.SameBut` says.  The main statement is
`switches_isolated`.
-/

namespace Chip8

/-- The dialect in force after an operation, when a reset returns to `chosen`. -/
def Operation.dialectAfter (dialect chosen : Dialect) : Operation → Dialect
  | .reset => chosen
  | .setSwitch switch on => dialect.set switch on
  | _ => dialect

theorem Operation.of_dialectAfter_ne {d d' chosen chosen' : Dialect} {op : Operation} {q : Switch}
    (h : op.dialectAfter d chosen q ≠ op.dialectAfter d' chosen' q) :
    d q ≠ d' q ∨ chosen q ≠ chosen' q := by
  cases op with
  | reset => exact Or.inr h
  | setSwitch switch on =>
    refine Or.inl fun he => h ?_
    simp only [dialectAfter, Dialect.set, he]
  | _ => exact Or.inl h

/-- The interpreter with other dialects: the one in force and the one that a reset returns to. -/
def Interpreter.switched {ρ : Type} (s : Interpreter ρ) (d chosen : Dialect) : Interpreter ρ :=
  { s with dialect := d, chosen := chosen }

/-- The reaction with other dialects in what it leaves behind. -/
def Reaction.switched {ρ : Type} (r : Reaction ρ) (d chosen : Dialect) : Reaction ρ :=
  { r with after := r.after.switched d chosen }

namespace Interpreter

open Instruction

variable {ρ : Type} [NumberSource ρ] {s : Interpreter ρ} {d chosen : Dialect} {w : Opcode} {q : Switch}

/-! ### Ticks -/

theorem dispatch_switched (chosen : Dialect) (h : ∀ q, s.word.Consults q → d q = s.dialect q) :
    (s.switched d chosen).dispatch = (s.dispatch.1.switched d chosen, s.dispatch.2) := by
  have hword : (s.switched d chosen).word = s.word := rfl
  cases hi : ofOpcode? s.word with
  | none =>
    simp only [dispatch, hword, hi]
    rfl
  | some i =>
    have hexec : (i.execute d : Action ρ Unit) = i.execute s.dialect :=
      execute_congr fun q hq => h q (consults_of_switch? (reads_of_ofOpcode? hi) hq)
    have hdialect : (s.switched d chosen).dialect = d := rfl
    have hmachine : (s.switched d chosen).machine = s.machine := rfl
    simp only [dispatch, hword, hi, hdialect, hmachine, hexec]
    cases (i.execute s.dialect) s.machine <;> rfl

/-- Dialects that agree on the switch of the word fetched make no difference to a tick. -/
theorem tick_switched (chosen : Dialect)
    (h : ∀ w, s.fetch = .ok w → ∀ q, w.Consults q → d q = s.dialect q) :
    (s.switched d chosen).tick = s.tick.switched d chosen := by
  have hfetch : (s.switched d chosen).fetch = s.fetch := rfl
  cases hw : s.fetch with
  | error f =>
    rw [tick_of_error hw, tick_of_error (hfetch.trans hw)]
    rfl
  | ok w =>
    have hfetched : (s.switched d chosen).fetched w = (s.fetched w).switched d chosen := rfl
    simp only [tick, hfetch, hw, hfetched, dispatch_switched (s := s.fetched w) chosen (h w hw)]
    rfl

theorem printed_switched (s : Interpreter ρ) (d chosen : Dialect) :
    (s.switched d chosen).tick.printed = s.tick.printed := by
  have hfetch : (s.switched d chosen).fetch = s.fetch := rfl
  cases hw : s.fetch with
  | error f => rw [tick_of_error hw, tick_of_error (hfetch.trans hw)]
  | ok w =>
    simp only [tick, hfetch, hw]
    rfl

/-- Whatever the dialects, a tick fails alike, and leaves machines that agree but for what the switch of
the word fetched decides about. -/
theorem tick_switched_of_consults (h : s.machine.WellFormed) (hw : s.fetch = .ok w)
    (hq : w.Consults q) (d chosen : Dialect) :
    (s.switched d chosen).tick.fault = s.tick.fault ∧
      (s.switched d chosen).tick.after =
        { s.tick.after.switched d chosen with
          machine := (s.switched d chosen).tick.after.machine } ∧
      s.tick.after.machine.SameBut q w.x (s.switched d chosen).tick.after.machine := by
  obtain ⟨hm, -⟩ := wellFormed_fetched h hw
  obtain ⟨i, hr, hi⟩ := reads_of_consults hq
  obtain ⟨hafter, hfault⟩ := tick_of_instruction hw (ofOpcode?_of_reads hr)
  obtain ⟨hafter', hfault'⟩ :=
    tick_of_instruction (s := s.switched d chosen) hw (ofOpcode?_of_reads hr)
  refine ⟨?_, ?_, ?_⟩
  · rw [hfault, hfault']
    exact (fault?_execute d hm.frame.grid hm.registers.i.1 hm.registers.dt i).trans
      (fault?_execute s.dialect hm.frame.grid hm.registers.i.1 hm.registers.dt i).symm
  · rw [hafter, hafter']
    rfl
  · rw [hafter, hafter']
    exact sameBut_execute s.dialect d hm.frame.grid hm.registers.i.1 hm.registers.dt hr hi

/-! ### Histories -/

/-- Whether no tick of a history fetches a word that a switch belongs to. -/
def Avoids (s : Interpreter ρ) (q : Switch) : List Operation → Prop
  | [] => True
  | op :: history =>
    (op = .tick → ∀ w, s.fetch = .ok w → ¬w.Consults q) ∧ Avoids (s.perform op).after q history

omit [NumberSource ρ] in
theorem react_switched {result result' : Except Fault (Interpreter ρ)}
    (h : result' = result.map (·.switched d chosen)) :
    (s.switched d chosen).react result' = (s.react result).switched d chosen := by
  rw [h]
  cases result <;> rfl

omit [NumberSource ρ] in
theorem loadRom_switched (s : Interpreter ρ) (rom : List UInt8) :
    (s.switched d chosen).loadRom rom = (s.loadRom rom).map (·.switched d chosen) := by
  have hmachine : (s.switched d chosen).machine = s.machine := rfl
  simp only [loadRom, hmachine]
  split
  · rfl
  · cases s.machine.memory.writeBlock programStart rom <;> rfl

omit [NumberSource ρ] in
theorem setKey_switched (s : Interpreter ρ) (key : Int) (pressed : Bool) :
    (s.switched d chosen).setKey key pressed =
      (s.setKey key pressed).map (·.switched d chosen) := by
  have hmachine : (s.switched d chosen).machine = s.machine := rfl
  simp only [setKey, hmachine]
  cases s.machine.keypad.setKey key pressed <;> rfl

omit [NumberSource ρ] in
theorem setLit_switched (s : Interpreter ρ) (x y : Int) (lit : Bool) :
    (s.switched d chosen).setLit x y lit = (s.setLit x y lit).map (·.switched d chosen) := by
  have hmachine : (s.switched d chosen).machine = s.machine := rfl
  simp only [setLit, hmachine]
  cases s.machine.frame.setLit x y lit <;> rfl

theorem perform_switched (op : Operation)
    (h : op = .tick → ∀ w, s.fetch = .ok w → ∀ q, w.Consults q → d q = s.dialect q) :
    (s.switched d chosen).perform op =
      (s.perform op).switched (op.dialectAfter d chosen) chosen := by
  cases op with
  | tick => exact tick_switched chosen (h rfl)
  | reset | updateTimers | setSwitch => rfl
  | loadRom rom => exact react_switched (loadRom_switched s rom)
  | setKey key pressed => exact react_switched (setKey_switched s key pressed)
  | setLit x y lit => exact react_switched (setLit_switched s x y lit)

theorem dialect_perform (s : Interpreter ρ) (op : Operation) :
    (s.perform op).after.dialect = op.dialectAfter s.dialect s.chosen ∧
      (s.perform op).after.chosen = s.chosen := by
  have hself : s.perform op =
      (s.perform op).switched (op.dialectAfter s.dialect s.chosen) s.chosen :=
    perform_switched op fun _ _ _ _ _ => rfl
  exact ⟨congrArg (·.after.dialect) hself, congrArg (·.after.chosen) hself⟩

/-- Switches that no tick of a history consults make no difference to it. -/
theorem reactions_switched {history : List Operation}
    (h : ∀ q, d q ≠ s.dialect q ∨ chosen q ≠ s.chosen q → s.Avoids q history)
    (d' chosen' : Dialect) :
    ((s.switched d chosen).reactions history).map (·.switched d' chosen') =
      (s.reactions history).map (·.switched d' chosen') := by
  induction history generalizing s d with
  | nil => rfl
  | cons op history ih =>
    have hop : (s.switched d chosen).perform op =
        (s.perform op).switched (op.dialectAfter d chosen) chosen := by
      refine perform_switched op fun ht w hw q hq => ?_
      by_cases hd : d q = s.dialect q
      · exact hd
      · exact absurd hq ((h q (Or.inl hd)).1 ht w hw)
    -- switches that differ after the operation differed before it
    have hrest : ∀ q, op.dialectAfter d chosen q ≠ (s.perform op).after.dialect q ∨
        chosen q ≠ (s.perform op).after.chosen q → (s.perform op).after.Avoids q history := by
      intro q hq
      rw [(dialect_perform s op).1, (dialect_perform s op).2] at hq
      refine (h q ?_).2
      rcases hq with hq | hq
      · exact Operation.of_dialectAfter_ne hq
      · exact Or.inr hq
    rw [reactions, reactions, List.map_cons, List.map_cons, hop]
    exact congrArg _ (ih hrest)

/-- A tick depends on no switch but that of the word that it fetches, and on that only in the parts of
the machine that it decides about; switches of words never executed make no difference. -/
theorem switches_isolated (dialect : Dialect) (tracing : Bool) (numbers : ρ)
    (history : List Operation) :
    let s := (new dialect tracing numbers).after history
    (∀ (w : Opcode) (q q' : Switch), w.Consults q → w.Consults q' → q = q') ∧
    (∀ d chosen : Dialect, (∀ w, s.fetch = .ok w → ∀ q, w.Consults q → d q = s.dialect q) →
      (s.switched d chosen).tick = s.tick.switched d chosen) ∧
    (∀ (d chosen : Dialect) (w : Opcode) (q : Switch), s.fetch = .ok w → w.Consults q →
      let r := (s.switched d chosen).tick
      r.fault = s.tick.fault ∧ r.printed = s.tick.printed ∧
        r.after = { s.tick.after.switched d chosen with machine := r.after.machine } ∧
        s.tick.after.machine.SameBut q w.x r.after.machine) ∧
    ∀ (d chosen : Dialect) (more : List Operation),
      (∀ q, d q ≠ s.dialect q ∨ chosen q ≠ s.chosen q → s.Avoids q more) →
      ∀ d' chosen' : Dialect,
        ((s.switched d chosen).reactions more).map (·.switched d' chosen') =
          (s.reactions more).map (·.switched d' chosen') := by
  intro s
  have hs : s.Reachable := ⟨dialect, tracing, numbers, history, rfl⟩
  refine ⟨fun w q q' h h' => consults_unique h h', fun d chosen h => tick_switched chosen h, ?_,
    fun d chosen more h d' chosen' => reactions_switched h d' chosen'⟩
  intro d chosen w q hw hq
  obtain ⟨hfault, hafter, hsame⟩ := tick_switched_of_consults hs.wellFormed hw hq d chosen
  exact ⟨hfault, printed_switched s d chosen, hafter, hsame⟩

end Interpreter

end Chip8
