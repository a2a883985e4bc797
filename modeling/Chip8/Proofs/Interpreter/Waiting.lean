import Chip8.Proofs.Interpreter.Timers

/-!
# Waiting for a key

A word `Fx0A` steps back over itself while no key is down, so the machine stands still under it: ticks
change nothing, and only the timers and the keys move (`waits`).  The first tick that finds a key down
takes the lowest one and goes on (`waiting_parks`).
-/

namespace Chip8

namespace Operation

/-- Whether an operation neither starts over nor changes the program or the dialect: a tick, an update of
the timers, or a change of one of the keys. -/
def Idles : Operation → Prop
  | .tick | .updateTimers => True
  | .setKey key _ => 0 ≤ key ∧ key < 16
  | _ => False

instance (op : Operation) : Decidable op.Idles :=
  match op with
  | .tick | .updateTimers => isTrue trivial
  | .setKey key _ => inferInstanceAs (Decidable (0 ≤ key ∧ key < 16))
  | .reset | .loadRom _ | .setSwitch _ _ | .setLit _ _ _ => isFalse id

/-- What an operation sets a key to, if it does. -/
def press? (k : Key) : Operation → Option Bool
  | .setKey key pressed => if key = k.val then some pressed else none
  | _ => none

/-- What the last of the operations that set a key has set it to. -/
def lastPress? (k : Key) (history : List Operation) : Option Bool :=
  history.reverse.findSome? (press? k)

theorem lastPress?_cons (k : Key) (op : Operation) (history : List Operation) :
    lastPress? k (op :: history) = (lastPress? k history).or (press? k op) := by
  simp only [lastPress?, List.reverse_cons, List.findSome?_append, List.findSome?_cons,
    List.findSome?_nil]
  cases press? k op <;> rfl

/-- What is noted by the first of some ticks stays noted. -/
theorem ite_tick_mem_cons {α : Type} (op : Operation) (history : List Operation) (a b : α) :
    (if .tick ∈ op :: history then a else b) =
      if .tick ∈ history then a else if op = .tick then a else b := by
  by_cases hop : op = .tick
  · simp [hop]
  · simp [hop, Ne.symm hop]

end Operation

namespace Interpreter

open Instruction Operation Timer

variable {ρ : Type} [NumberSource ρ] {s : Interpreter ρ} {w : Opcode}

/-! ### Ticks -/

/-- While no key is down, a tick comes back to the word and notes it. -/
theorem tick_of_none_down (h : s.machine.WellFormed) (hw : s.fetch = .ok w)
    (hb : w.HasByte 0xF 0x0A) (hup : ∀ k, s.machine.keypad.down.get k = false) :
    s.tick.fault = none ∧
      s.tick.after = { s with word := w, fetchedFrom := s.machine.registers.pc } := by
  have hi : ofOpcode? w = some (awaitKey w.x) := ofOpcode?_of_reads ⟨hb, rfl⟩
  have hnone := (Keypad.firstPressed_eq_none_iff _).2 hup
  obtain ⟨hok, hafter⟩ := tick_of_accepted h hw hi rfl rfl
  refine ⟨hok, ?_⟩
  simp only [hafter, machineAfter, registersAfter, fetched, hnone, Int.add_sub_cancel]
  rfl

/-- Once a key is down, a tick takes the lowest one and goes on. -/
theorem tick_of_some_down (h : s.machine.WellFormed) (hw : s.fetch = .ok w)
    (hb : w.HasByte 0xF 0x0A) {k : Key} (hk : s.machine.keypad.firstPressed = some k) :
    s.tick.fault = none ∧ s.tick.after = { s with
      machine := { s.machine with
        registers := { s.machine.registers.setV w.x (UInt8.ofNat k.val) with
          pc := s.machine.registers.pc + 2 } }
      word := w
      fetchedFrom := s.machine.registers.pc } := by
  have hi : ofOpcode? w = some (awaitKey w.x) := ofOpcode?_of_reads ⟨hb, rfl⟩
  obtain ⟨hok, hafter⟩ := tick_of_accepted h hw hi rfl rfl
  refine ⟨hok, ?_⟩
  simp only [hafter, machineAfter, registersAfter, fetched, hk]
  rfl

/-! ### Histories -/

/-- The interpreter after waiting: `n` updates of the timers later, with other keys, and with what was
fetched last noted. -/
def waited (s : Interpreter ρ) (n : Nat) (keypad : Keypad) (word : Opcode) (fetchedFrom : Int) :
    Interpreter ρ :=
  let r := s.machine.registers
  { s with
    machine := { s.machine with
      registers := { r with dt := elapsed r.dt n, st := elapsed r.st n }
      keypad }
    word
    fetchedFrom }

omit [NumberSource ρ] in
theorem waited_waited (s : Interpreter ρ) (n n' : Nat) (keypad keypad' : Keypad) (word word' : Opcode)
    (address address' : Int) :
    (s.waited n keypad word address).waited n' keypad' word' address' =
      s.waited (n + n') keypad' word' address' := by
  simp only [waited, elapsed_add]

omit [NumberSource ρ] in
theorem waited_zero (h : s.machine.WellFormed) (keypad : Keypad) (word : Opcode) (address : Int) :
    s.waited 0 keypad word address =
      { s with machine := { s.machine with keypad }, word, fetchedFrom := address } := by
  have hdt := elapsed_zero h.registers.dt.1
  have hst := elapsed_zero h.registers.st.1
  simp only [waited, hdt, hst]

/-- While no key is down when it ticks, an idle operation succeeds and changes no more than the timers,
the keys and what was fetched last. -/
theorem idles (h : s.machine.WellFormed) (hw : s.fetch = .ok w) (hb : w.HasByte 0xF 0x0A)
    {op : Operation} (hop : op.Idles) (hup : op = .tick → ∀ k, s.machine.keypad.down.get k = false) :
    (s.perform op).fault = none ∧ ∃ keypad : Keypad,
      (∀ k, keypad.down.get k = (press? k op).getD (s.machine.keypad.down.get k)) ∧
      (s.perform op).after = s.waited (if op = .updateTimers then 1 else 0) keypad
        (if op = .tick then w else s.word)
        (if op = .tick then s.machine.registers.pc else s.fetchedFrom) := by
  cases op with
  | tick =>
    obtain ⟨hok, hafter⟩ := tick_of_none_down h hw hb (hup rfl)
    exact ⟨hok, s.machine.keypad, fun k => rfl, hafter.trans (waited_zero h _ _ _).symm⟩
  | updateTimers =>
    refine ⟨rfl, s.machine.keypad, fun k => rfl, ?_⟩
    have hdt := elapsed_one h.registers.dt.1
    have hst := elapsed_one h.registers.st.1
    simp only [perform, updateTimers, waited, if_true, hdt, hst]
    rfl
  | setKey key pressed =>
    obtain ⟨keypad, hk⟩ : ∃ keypad, s.machine.keypad.setKey key pressed = .ok keypad := ⟨_, dif_pos hop⟩
    have hset : s.setKey key pressed = .ok { s with machine := { s.machine with keypad } } := by
      rw [setKey, hk]
      rfl
    have hperform : s.perform (.setKey key pressed) =
        ⟨{ s with machine := { s.machine with keypad } }, none, none⟩ := by
      rw [perform, hset]
      rfl
    rw [hperform]
    refine ⟨rfl, keypad, fun k => ?_, (waited_zero h _ _ _).symm⟩
    rw [Keypad.get_setKey hk, press?]
    by_cases hkey : key = k.val
    · rw [if_pos hkey, if_pos hkey.symm]
      rfl
    · rw [if_neg hkey, if_neg (Ne.symm hkey)]
      rfl
  | _ => exact hop.elim

/-- Waiting keeps the machine where it is: every operation succeeds, and a history comes to no more than
its updates of the timers, its changes of keys, and the word noted if it ticks. -/
theorem waits (h : s.machine.WellFormed) (hw : s.fetch = .ok w) (hb : w.HasByte 0xF 0x0A)
    {history : List Operation} (hops : ∀ op ∈ history, op.Idles)
    (hup : s.AtTicks (fun u => ∀ k, u.machine.keypad.down.get k = false) history) :
    (∀ r ∈ s.reactions history, r.fault = none) ∧ ∃ keypad : Keypad,
      (∀ k, keypad.down.get k = (lastPress? k history).getD (s.machine.keypad.down.get k)) ∧
      s.after history = s.waited (history.count .updateTimers) keypad
        (if .tick ∈ history then w else s.word)
        (if .tick ∈ history then s.machine.registers.pc else s.fetchedFrom) := by
  induction history generalizing s with
  | nil =>
    exact ⟨fun r hr => absurd hr List.not_mem_nil, s.machine.keypad, fun k => rfl, (waited_zero h _ _ _).symm⟩
  | cons op history ih =>
    obtain ⟨hnow, hlater⟩ := atTicks_cons.1 hup
    obtain ⟨hok, keypad, hkeys, hstep⟩ := idles h hw hb (hops op List.mem_cons_self) hnow
    have hwf := wellFormed_perform s op h
    rw [hstep] at hlater hwf
    obtain ⟨hoks, keypad', hkeys', hrest⟩ :=
      ih hwf hw (fun o ho => hops o (List.mem_cons_of_mem _ ho)) hlater
    refine ⟨fun r hr => ?_, keypad', fun k => ?_, ?_⟩
    · rcases List.mem_cons.1 hr with rfl | hr
      · exact hok
      · exact hoks r (hstep ▸ hr)
    · rw [hkeys', lastPress?_cons]
      cases lastPress? k history with
      | some pressed => rfl
      | none => exact hkeys k
    · rw [after_cons, hstep, hrest, waited_waited, ite_tick_mem_cons, ite_tick_mem_cons,
        List.count_cons, Nat.add_comm]
      simp only [beq_iff_eq]
      rfl

/-- As long as no key is down when it ticks, the word `Fx0A` keeps the counter, and only keys, timers
and what a tick notes change; once one is, the lowest such key goes into `Vx`. -/
theorem waiting_parks (hs : s.Reachable) (hw : s.fetch = .ok w) (hb : w.HasByte 0xF 0x0A)
    {history : List Operation} (hops : ∀ op ∈ history, op.Idles)
    (hup : s.AtTicks (fun u => ∀ k, u.machine.keypad.down.get k = false) history) :
    let r := s.machine.registers
    let n := history.count .updateTimers
    let t := s.after history
    (∀ reaction ∈ s.reactions history, reaction.fault = none) ∧
    (∀ k, t.machine.keypad.down.get k = (lastPress? k history).getD (s.machine.keypad.down.get k)) ∧
    t = { s with
      machine := { s.machine with
        registers := { r with dt := max 0 (r.dt - n), st := max 0 (r.st - n) }
        keypad := t.machine.keypad }
      word := if .tick ∈ history then w else s.word
      fetchedFrom := if .tick ∈ history then r.pc else s.fetchedFrom } ∧
    ((∃ k, t.machine.keypad.down.get k = true) →
      ∃ k, t.machine.keypad.down.get k = true ∧ (∀ j < k, t.machine.keypad.down.get j = false) ∧
        t.tick.fault = none ∧ t.tick.after = { t with
          machine := { t.machine with
            registers := { t.machine.registers.setV w.x (UInt8.ofNat k.val) with pc := r.pc + 2 } }
          word := w
          fetchedFrom := r.pc }) := by
  intro r n t
  obtain ⟨hoks, keypad, hkeys, hafter⟩ := waits hs.wellFormed hw hb hops hup
  have ht : t.machine.WellFormed := (hs.after history).wellFormed
  have hkeypad : t.machine.keypad = keypad := congrArg (·.machine.keypad) hafter
  have hpc : t.machine.registers.pc = r.pc := congrArg (·.machine.registers.pc) hafter
  have hfetch : t.fetch = .ok w := (congrArg fetch hafter).trans hw
  refine ⟨hoks, fun k => ?_, ?_, ?_⟩
  · rw [hkeypad, hkeys]
  · rw [hkeypad]
    exact hafter
  · rintro ⟨down, hdown⟩
    obtain ⟨k, hk⟩ : ∃ k, t.machine.keypad.firstPressed = some k := by
      refine Option.ne_none_iff_exists'.1 fun hnone => ?_
      rw [(Keypad.firstPressed_eq_none_iff _).1 hnone down] at hdown
      cases hdown
    obtain ⟨hlit, hlower⟩ := Keypad.lowest_of_firstPressed hk
    obtain ⟨hok, htick⟩ := tick_of_some_down ht hfetch hb hk
    rw [hpc] at htick
    exact ⟨k, hlit, hlower, hok, htick⟩

/-- A program that waits for a key while one key is tapped between its ticks, and then two keys go down:
the lower one is taken into `V1`. -/
theorem waiting_parks_until_two_keys :
    let s := (new Dialect.modern false (Cycle.mk [0] 0)).after [.loadRom [0xF1, 0x0A]]
    let t := s.after [.tick, .setKey 2 true, .setKey 2 false, .updateTimers, .tick, .setKey 9 true,
      .setKey 4 true]
    t.machine.registers.pc = 0x200 ∧ t.tick.fault = none ∧
      t.tick.after.machine.registers.v.get 1 = 4 ∧ t.tick.after.machine.registers.pc = 0x202 := by
  intro s t
  have hs : s.Reachable := ⟨Dialect.modern, false, ⟨[0], 0⟩, _, rfl⟩
  obtain ⟨hword, hpc, hup₀, hup₁, hdown⟩ :
      s.fetch.toOption = some ⟨0xF10A⟩ ∧ s.machine.registers.pc = 0x200 ∧
        (∀ k, s.machine.keypad.down.get k = false) ∧
        (∀ k, (s.after [.tick, .setKey 2 true, .setKey 2 false, .updateTimers]).machine.keypad.down.get
          k = false) ∧
        ∀ k, t.machine.keypad.down.get k = true ↔ k = 4 ∨ k = 9 := by
    decide +kernel
  clear_value s
  have hidle : s.AtTicks (fun u => ∀ k, u.machine.keypad.down.get k = false)
      [.tick, .setKey 2 true, .setKey 2 false, .updateTimers, .tick, .setKey 9 true,
        .setKey 4 true] := by
    simp only [atTicks_cons, atTicks_nil, and_true, reduceCtorEq, false_imp_iff, true_and,
      forall_const]
    exact ⟨hup₀, hup₁⟩
  obtain ⟨-, -, hwaited, htakes⟩ := waiting_parks hs (fetch_eq_ok hword) ⟨by decide, by decide⟩
    (by decide) hidle
  obtain ⟨k, hk, hlower, hok, hafter⟩ := htakes ⟨4, (hdown 4).2 (Or.inl rfl)⟩
  have hfour : k = 4 := by
    refine ((hdown k).1 hk).resolve_right ?_
    rintro rfl
    exact Bool.false_ne_true ((hlower 4 (by decide)).symm.trans ((hdown 4).2 (Or.inl rfl)))
  subst hfour
  refine ⟨?_, hok, ?_, ?_⟩
  · exact (congrArg (·.machine.registers.pc) hwaited).trans hpc
  · rw [hafter]
    exact (Registers.get_setV ..).trans (if_pos rfl)
  · rw [hafter]
    exact congrArg (· + 2) hpc

end Interpreter

end Chip8
