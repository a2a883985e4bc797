import Chip8.Proofs.Interpreter.Failure

/-!
# Calls and returns

No operation but a reset reaches below the newest entry of the stack (`stackEffect`).  So a return
address stays where the call has put it, together with the entries below it, until the depth is that
before the call; this comes about by a return, which goes to the address (`call_discipline`).  Between
the two the program may do anything, write over its own code or fail included.
-/

namespace Chip8

namespace Interpreter

open Instruction

variable {ρ : Type} {s : Interpreter ρ}

/-- Whether the word under the program counter is a call `2nnn`. -/
def FetchesCall (s : Interpreter ρ) : Prop := ∃ w, s.fetch = .ok w ∧ w.family.val = 2

/-- Whether the word under the program counter is a return `00EE`. -/
def FetchesReturn (s : Interpreter ρ) : Prop := ∃ w, s.fetch = .ok w ∧ w.HasByte 0x0 0xEE

variable [NumberSource ρ]

/-! ### The stack under each operation -/

theorem stack_tick (h : s.machine.WellFormed) {w : Opcode} {i : Instruction}
    (hw : s.fetch = .ok w) (hi : ofOpcode? w = some i) :
    s.tick.after.machine.stack = i.stackAfter (s.fetched w).machine := by
  obtain ⟨hm, -⟩ := wellFormed_fetched h hw
  rw [(tick_of_instruction hw hi).1]
  exact stack_left s.dialect hm.frame.grid hm.registers.i.1 hm.registers.dt i

/-- A call with a slot left puts the address behind it on the stack. -/
theorem tick_of_call (h : s.machine.WellFormed) (hc : s.FetchesCall)
    (hd : s.machine.stack.depth < 16) :
    s.tick.fault = none ∧
      s.tick.after.machine.stack.live =
        (s.machine.registers.pc + 2) :: s.machine.stack.live := by
  obtain ⟨w, hw, hf⟩ := hc
  obtain ⟨target, hi⟩ := ofOpcode?_eq_call_iff.2 hf
  have hcap : s.machine.stack.live.length + s.machine.stack.spare.length = 16 := h.stack.capacity_eq
  have hlen : s.machine.stack.live.length < 16 := hd
  obtain ⟨slot, spare, hs⟩ : ∃ slot spare, s.machine.stack.spare = slot :: spare :=
    List.exists_cons_of_length_pos (by omega)
  constructor
  · have hfault := fault_tick h hw
    simp only [hi] at hfault
    rw [hfault]
    exact if_neg (by rw [fetched, hs]; exact List.cons_ne_nil _ _)
  · rw [stack_tick h hw hi]
    simp only [stackAfter, fetched, hs]

/-- A call that succeeds has found a slot left. -/
theorem depth_lt_of_call (h : s.machine.WellFormed) (hc : s.FetchesCall)
    (hf : s.tick.fault = none) : s.machine.stack.depth < 16 := by
  obtain ⟨w, hw, hfam⟩ := hc
  have hcap : s.machine.stack.live.length + s.machine.stack.spare.length = 16 := h.stack.capacity_eq
  apply Nat.lt_of_not_le
  intro hle
  have hfull : s.machine.stack.depth = 16 := by
    rw [CallStack.depth] at hle ⊢
    omega
  rw [(fault_tick_eq_stackOverflow_iff h hw).2 ⟨hfam, hfull⟩] at hf
  cases hf

/-- A return with an entry left goes to the newest one and takes it off the stack. -/
theorem tick_of_return (h : s.machine.WellFormed) (hr : s.FetchesReturn) {target : Int}
    {live : List Int} (hl : s.machine.stack.live = target :: live) :
    s.tick.fault = none ∧ s.tick.after.machine.registers.pc = target ∧
      s.tick.after.machine.stack.live = live := by
  obtain ⟨w, hw, hb⟩ := hr
  have hnone : ret.failure? (s.fetched w).machine = none :=
    if_neg (by rw [fetched, hl]; exact List.cons_ne_nil _ _)
  obtain ⟨hok, hafter⟩ := tick_of_accepted h hw (ofOpcode?_eq_ret_iff.2 hb) rfl hnone
  refine ⟨hok, ?_, ?_⟩
  · simp only [hafter, machineAfter, registersAfter, fetched, hl, List.headD_cons]
  · simp only [hafter, machineAfter, stackAfter, fetched, hl]

/-- A return that succeeds has found an entry left. -/
theorem live_ne_nil_of_return (h : s.machine.WellFormed) (hr : s.FetchesReturn)
    (hf : s.tick.fault = none) : s.machine.stack.live ≠ [] := by
  obtain ⟨w, hw, hb⟩ := hr
  intro hempty
  have hdepth : s.machine.stack.depth = 0 := List.length_eq_zero_iff.2 hempty
  rw [(fault_tick_eq_stackUnderflow_iff h hw).2 ⟨hb, hdepth⟩] at hf
  cases hf

/-- A tick that neither calls nor returns leaves the stack alone. -/
theorem stack_tick_of_plain (h : s.machine.WellFormed) (hc : ¬s.FetchesCall)
    (hr : ¬s.FetchesReturn) : s.tick.after.machine.stack = s.machine.stack := by
  cases tick_cases s with
  | unfetched f hw ends => rw [ends]
  | illegal w hw hi hafter =>
    rw [hafter]
    rfl
  | executed w i hw hi =>
    rw [stack_tick h hw hi]
    cases i with
    | ret => exact absurd ⟨w, hw, ofOpcode?_eq_ret_iff.1 hi⟩ hr
    | call target => exact absurd ⟨w, hw, ofOpcode?_eq_call_iff.1 ⟨target, hi⟩⟩ hc
    | _ => rfl

/-- A tick that fails leaves the stack alone. -/
theorem stack_tick_of_failed (h : s.machine.WellFormed) (hf : s.tick.fault ≠ none) :
    s.tick.after.machine.stack = s.machine.stack := by
  cases tick_cases s with
  | unfetched f hw ends => rw [ends]
  | illegal w hw hi hafter =>
    rw [hafter]
    rfl
  | executed w i hw hi =>
    have hfault := fault_tick h hw
    simp only [hi] at hfault
    obtain ⟨f, hfail⟩ := Option.ne_none_iff_exists'.1 (hfault ▸ hf)
    rw [stack_tick h hw hi, stackAfter_of_failure hfail]
    rfl

/-- What an operation does to the entries of the stack. -/
inductive StackEffect (s : Interpreter ρ) (op : Operation) : Prop
  /-- It leaves the stack alone. -/
  | kept (same : (s.perform op).after.machine.stack = s.machine.stack)
  /-- It is a call, and puts the address behind the call on the stack. -/
  | pushed (ticks : op = .tick) (calls : s.FetchesCall)
      (live : (s.perform op).after.machine.stack.live =
        (s.machine.registers.pc + 2) :: s.machine.stack.live)
  /-- It is a return that succeeds, and goes to the entry that it takes off the stack. -/
  | popped (ticks : op = .tick) (returns : s.FetchesReturn) (succeeds : s.tick.fault = none)
      (live : s.machine.stack.live =
        s.tick.after.machine.registers.pc :: s.tick.after.machine.stack.live)

theorem stackEffect (h : s.machine.WellFormed) {op : Operation} (hr : op ≠ .reset) :
    s.StackEffect op := by
  by_cases ht : op = .tick
  · subst ht
    by_cases hf : s.tick.fault = none
    · by_cases hc : s.FetchesCall
      · exact .pushed rfl hc (tick_of_call h hc (depth_lt_of_call h hc hf)).2
      · by_cases hret : s.FetchesReturn
        · obtain ⟨target, live, hl⟩ := List.exists_cons_of_ne_nil (live_ne_nil_of_return h hret hf)
          obtain ⟨-, hpc, hlive⟩ := tick_of_return h hret hl
          exact .popped rfl hret hf (by rw [hpc, hlive, hl])
        · exact .kept (stack_tick_of_plain h hc hret)
    · exact .kept (stack_tick_of_failed h hf)
  · obtain ⟨memory, registers, frame, keypad, dialect, ho⟩ := after_host_operation h hr ht
    exact .kept (by rw [ho])

/-! ### Between a call and its return -/

/-- As long as an entry and those below it are on the stack, an operation leaves them there, unless it
is the return that goes to the entry. -/
theorem perform_above (h : s.machine.WellFormed) {op : Operation} (hr : op ≠ .reset) {target : Int}
    {live : List Int} (ha : target :: live <:+ s.machine.stack.live) :
    target :: live <:+ (s.perform op).after.machine.stack.live ∨
      (op = .tick ∧ s.FetchesReturn ∧ s.tick.fault = none ∧
        s.tick.after.machine.registers.pc = target ∧ s.tick.after.machine.stack.live = live) := by
  cases stackEffect h hr with
  | kept same => exact Or.inl (by rw [same]; exact ha)
  | pushed _ _ hlive => exact Or.inl (by rw [hlive]; exact ha.trans (List.suffix_cons _ _))
  | popped ticks returns succeeds hlive =>
    rw [hlive, List.suffix_cons_iff] at ha
    rcases ha with heq | ha
    · obtain ⟨hpc, htail⟩ := List.cons.inj heq
      exact Or.inr ⟨ticks, returns, succeeds, hpc.symm, htail.symm⟩
    · subst ticks
      exact Or.inl ha

/-- As long as the depth does not come back to that below an entry, no history takes the entry off. -/
theorem after_above (h : s.machine.WellFormed) {history : List Operation}
    (hr : .reset ∉ history) {target : Int} {live : List Int}
    (ha : target :: live <:+ s.machine.stack.live)
    (hd : ∀ before, before <+: history → (s.after before).machine.stack.depth ≠ live.length) :
    target :: live <:+ (s.after history).machine.stack.live := by
  induction history generalizing s with
  | nil => exact ha
  | cons op history ih =>
    rw [List.mem_cons, not_or] at hr
    have hdepth : (s.perform op).after.machine.stack.depth ≠ live.length :=
      hd [op] (List.prefix_append [op] history)
    rcases perform_above h (Ne.symm hr.1) ha with habove | ⟨rfl, -, -, -, hlive⟩
    · apply ih (wellFormed_perform s op h) hr.2 habove
      intro before hb
      exact hd (op :: before) (List.cons_prefix_cons.2 ⟨rfl, hb⟩)
    · exact absurd (congrArg List.length hlive) hdepth

/-! ### Nested calls -/

/-- Histories whose calls and returns match, with at most `room` calls one inside the other. -/
inductive Nested : Nat → Interpreter ρ → List Operation → Prop
  | nil (room : Nat) (s : Interpreter ρ) : Nested room s []
  /-- An operation that is no reset, and neither a call nor a return. -/
  | plain {room : Nat} {s : Interpreter ρ} {op : Operation} {history : List Operation}
      (noReset : op ≠ .reset) (noTurn : op = .tick → ¬s.FetchesCall ∧ ¬s.FetchesReturn)
      (rest : Nested room (s.perform op).after history) : Nested room s (op :: history)
  /-- A call, a body in which calls and returns match, and a return. -/
  | call {room : Nat} {s : Interpreter ρ} {body history : List Operation} (calls : s.FetchesCall)
      (inner : Nested room s.tick.after body) (returns : (s.tick.after.after body).FetchesReturn)
      (rest : Nested (room + 1) (s.tick.after.after body).tick.after history) :
      Nested (room + 1) s (.tick :: (body ++ .tick :: history))

/-- Calls and returns that match leave the entries of the stack as they were, if there are enough slots
left. -/
theorem Nested.live_after {room : Nat} {history : List Operation} (hn : Nested room s history)
    (h : s.machine.WellFormed) (hd : s.machine.stack.live.length + room ≤ 16) :
    (s.after history).machine.stack.live = s.machine.stack.live := by
  induction hn with
  | nil room s => rfl
  | @plain room s op history noReset noTurn rest ih =>
    have hstack : (s.perform op).after.machine.stack = s.machine.stack := by
      cases stackEffect h noReset with
      | kept same => exact same
      | pushed ticks calls => exact absurd calls (noTurn ticks).1
      | popped ticks returns => exact absurd returns (noTurn ticks).2
    rw [after_cons, ih (wellFormed_perform s op h) (by rw [hstack]; exact hd), hstack]
  | @call room s body history calls inner returns rest ihInner ihRest =>
    have hroom : s.machine.stack.depth < 16 := by
      rw [CallStack.depth]
      omega
    have hcall := (tick_of_call h calls hroom).2
    have hwf := (wellFormed_tick h).1
    have hbody := (ihInner hwf (by rw [hcall, List.length_cons]; omega)).trans hcall
    have hwfBody := after_induction (P := fun s => s.machine.WellFormed) wellFormed_perform hwf body
    have hret := (tick_of_return hwfBody returns hbody).2.2
    rw [after_cons, after_append, after_cons]
    exact (ihRest (wellFormed_tick hwfBody).1 (by rw [hret]; omega)).trans hret

/-- From a call that succeeds until the depth is back, the old entries and the return address stay on
the stack, and what brings the depth back is a return to that address, which leaves the old entries. -/
theorem call_discipline (hs : s.Reachable) (hc : s.FetchesCall) (hok : s.tick.fault = none) :
    let t := s.tick.after
    let target := s.machine.registers.pc + 2
    let entries := s.machine.stack.entries
    (∀ history : List Operation, .reset ∉ history →
      (∀ before, before <+: history →
        (t.after before).machine.stack.depth ≠ s.machine.stack.depth) →
      let u := t.after history
      s.machine.stack.depth < u.machine.stack.depth ∧
        entries ++ [target] <+: u.machine.stack.entries ∧
        ∀ op, op ≠ .reset →
          (u.perform op).after.machine.stack.depth = s.machine.stack.depth →
          op = .tick ∧ u.FetchesReturn ∧ u.tick.fault = none ∧
            u.tick.after.machine.registers.pc = target ∧
            u.tick.after.machine.stack.entries = entries) ∧
    (∀ (room : Nat) (body : List Operation), Nested room t body →
      s.machine.stack.depth + 1 + room ≤ 16 → (t.after body).FetchesReturn →
      let u := (t.after body).tick
      u.fault = none ∧ u.after.machine.registers.pc = target ∧
        u.after.machine.stack.entries = entries) := by
  intro t target entries
  have h := hs.wellFormed
  have hwf : t.machine.WellFormed := hs.tick.wellFormed
  have hcall : t.machine.stack.live = target :: s.machine.stack.live :=
    (tick_of_call h hc (depth_lt_of_call h hc hok)).2
  constructor
  · intro history hr hd u
    have hu : u.machine.WellFormed := (hs.tick.after history).wellFormed
    have hpushed : target :: s.machine.stack.live <:+ t.machine.stack.live :=
      hcall ▸ List.suffix_rfl
    have habove : target :: s.machine.stack.live <:+ u.machine.stack.live :=
      after_above hwf hr hpushed hd
    refine ⟨habove.length_le, ?_, ?_⟩
    · rw [show entries ++ [target] = (target :: s.machine.stack.live).reverse from
        List.reverse_cons.symm]
      exact List.reverse_prefix.2 habove
    · intro op hop hdepth
      rcases perform_above hu hop habove with hstill | ⟨htick, hret, hnone, hpc, hlive⟩
      · have hlen := hstill.length_le
        rw [List.length_cons] at hlen
        exact absurd hdepth (Nat.ne_of_gt hlen)
      · exact ⟨htick, hret, hnone, hpc, congrArg List.reverse hlive⟩
  · intro room body hn hroom hret u
    have hbody : (t.after body).machine.stack.live = target :: s.machine.stack.live :=
      (hn.live_after hwf (by rw [hcall]; exact hroom)).trans hcall
    obtain ⟨hnone, hpc, hlive⟩ := tick_of_return (hs.tick.after body).wellFormed hret hbody
    exact ⟨hnone, hpc, congrArg List.reverse hlive⟩

/-- A program that calls a subroutine, which calls another one.  The return of the inner one leaves the
depth above that before the outer call, and the return of the outer one brings it back. -/
theorem call_discipline_of_two_calls :
    let s := (new Dialect.modern false (Cycle.mk [0] 0)).after
      [.loadRom [0x22, 0x04, 0x00, 0x00, 0x22, 0x08, 0x00, 0xEE, 0x00, 0xEE]]
    let u := s.tick.after.after [.tick, .tick]
    s.machine.stack.entries ++ [0x202] <+: u.machine.stack.entries ∧
      u.tick.fault = none ∧ u.tick.after.machine.registers.pc = 0x202 ∧
      u.tick.after.machine.stack.entries = s.machine.stack.entries := by
  intro s u
  have hs : s.Reachable := ⟨Dialect.modern, false, ⟨[0], 0⟩, _, rfl⟩
  obtain ⟨hdepth, hpc, hok, hword₀, hword₁, hword₂, hword₃, hdepth₀, hdepth₁, hdepth₂⟩ :
      s.machine.stack.depth = 0 ∧ s.machine.registers.pc + 2 = 0x202 ∧ s.tick.fault = none ∧
        s.fetch.toOption = some ⟨0x2204⟩ ∧ s.tick.after.fetch.toOption = some ⟨0x2208⟩ ∧
        (s.tick.after.after [.tick]).fetch.toOption = some ⟨0x00EE⟩ ∧
        u.fetch.toOption = some ⟨0x00EE⟩ ∧ s.tick.after.machine.stack.depth = 1 ∧
        (s.tick.after.after [.tick]).machine.stack.depth = 2 ∧ u.machine.stack.depth = 1 := by
    decide +kernel
  clear_value s
  have hcall : s.FetchesCall := ⟨_, fetch_eq_ok hword₀, by decide⟩
  have hinner : s.tick.after.FetchesCall := ⟨_, fetch_eq_ok hword₁, by decide⟩
  have hback : (s.tick.after.after [.tick]).FetchesReturn :=
    ⟨_, fetch_eq_ok hword₂, by decide, by decide⟩
  have hret : u.FetchesReturn := ⟨_, fetch_eq_ok hword₃, by decide, by decide⟩
  have hmatch : Nested 1 s.tick.after [.tick, .tick] :=
    @Nested.call _ _ 0 s.tick.after [] [] hinner (.nil 0 _) hback (.nil 1 _)
  obtain ⟨hopen, hnested⟩ := call_discipline hs hcall hok
  rw [hpc, hdepth] at hopen hnested
  obtain ⟨-, hbottom, -⟩ := hopen [.tick, .tick] (by decide) fun before hb => by
    rcases List.prefix_cons_iff.1 hb with rfl | ⟨rest, rfl, hrest⟩
    · exact hdepth₀ ▸ Nat.one_ne_zero
    · rcases List.prefix_cons_iff.1 hrest with rfl | ⟨rest, rfl, hnil⟩
      · exact hdepth₁ ▸ Nat.succ_ne_zero 1
      · rw [List.prefix_nil.1 hnil]
        exact hdepth₂ ▸ Nat.one_ne_zero
  exact ⟨hbottom, hnested 1 [.tick, .tick] hmatch (by decide) hret⟩

end Interpreter

end Chip8
