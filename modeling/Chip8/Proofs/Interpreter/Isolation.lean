import Mathlib.Data.List.Forall2
import Chip8.Interpreter.Query
import Chip8.Proofs.Instruction.Futures
import Chip8.Proofs.Interpreter.Restart

/-!
# What a reset forgets

Interpreters that are the same but for number sources with the same future answer alike, and every
operation keeps them so (`perform_alike`).  A reset makes any two reachable interpreters of one dialect
alike, if their fonts agree and their sources have the same future (`reset_alike`): whatever else the
histories before it left behind is gone.  The main statement is `restart_isolated`.
-/

namespace Chip8

open NumberSource

variable {ρ ρ' : Type}

/-- The interpreter with another number source. -/
def Interpreter.feed (s : Interpreter ρ) (numbers : ρ') : Interpreter ρ' :=
  { s with machine := s.machine.feed numbers }

namespace Interpreter

variable {s : Interpreter ρ} {t : Interpreter ρ'}

/-! ### What a reset leaves -/

/-- The interpreter that a reset leaves, if it finds and leaves the memory given. -/
def restarted (s : Interpreter ρ) (memory : Memory) : Interpreter ρ :=
  { s with
    machine := {
      memory
      registers := .initial
      stack := s.machine.stack.clear
      frame := s.machine.frame.clear
      keypad := .allUp
      numbers := s.machine.numbers }
    dialect := s.chosen
    word := .ofInt 0
    fetchedFrom := programStart }

theorem reset_eq_restarted (s : Interpreter ρ) :
    s.reset = s.restarted (clearAroundFont s.machine.memory) := rfl

theorem memory_restarted (s : Interpreter ρ) (memory : Memory) :
    (s.restarted memory).machine.memory = memory := rfl

theorem numbers_restarted (s : Interpreter ρ) (memory : Memory) :
    (s.restarted memory).machine.numbers = s.machine.numbers := rfl

theorem numbers_reset (s : Interpreter ρ) : s.reset.machine.numbers = s.machine.numbers := by
  rw [reset_eq_restarted, numbers_restarted]

theorem feed_self (s : Interpreter ρ) : s.feed s.machine.numbers = s := rfl

theorem memory_reset_eq (hs : s.machine.WellFormed) (ht : t.machine.WellFormed)
    (hfont : ∀ a, InFont a → t.machine.memory.byteAt a = s.machine.memory.byteAt a) :
    t.reset.machine.memory = s.reset.machine.memory := by
  apply Memory.ext_byteAt
  · rw [(wellFormed_reset ht).memory_size, (wellFormed_reset hs).memory_size]
  · intro a ha
    rw [(wellFormed_reset ht).memory_size] at ha
    rw [byteAt_reset ht (by omega) (by omega), byteAt_reset hs (by omega) (by omega)]
    split
    · next hin => exact hfont a hin
    · rfl

theorem restarted_eq_feed (memory : Memory) (hchosen : t.chosen = s.chosen)
    (htracing : t.tracing = s.tracing) (hstack : t.machine.stack.clear = s.machine.stack.clear)
    (hframe : t.machine.frame.clear = s.machine.frame.clear) :
    t.restarted memory = (s.restarted memory).feed t.machine.numbers := by
  simp only [restarted, feed, Machine.feed, hchosen, htracing, hstack, hframe]

/-- A reset brings interpreters of one dialect together, if their fonts agree. -/
theorem reset_eq_feed (hs : s.machine.WellFormed) (ht : t.machine.WellFormed)
    (hchosen : t.chosen = s.chosen) (htracing : t.tracing = s.tracing)
    (hfont : ∀ a, InFont a → t.machine.memory.byteAt a = s.machine.memory.byteAt a) :
    t.reset = s.reset.feed t.machine.numbers := by
  have hmemory := memory_reset_eq hs ht hfont
  rw [reset_eq_restarted, reset_eq_restarted, memory_restarted, memory_restarted] at hmemory
  have hstack : t.machine.stack.clear = s.machine.stack.clear := by
    rw [CallStack.clear, CallStack.clear, hs.stack.capacity_eq, ht.stack.capacity_eq]
  have hframe : t.machine.frame.clear = s.machine.frame.clear := by
    rw [Frame.clear_eq_standard hs.frame, Frame.clear_eq_standard ht.frame]
  rw [reset_eq_restarted, reset_eq_restarted, hmemory]
  exact restarted_eq_feed _ hchosen htracing hstack hframe

end Interpreter

variable [NumberSource ρ] [NumberSource ρ']

/-- Whether two interpreters are the same but for number sources with the same future. -/
def Interpreter.Alike (s : Interpreter ρ) (t : Interpreter ρ') : Prop :=
  ∃ numbers, SameFuture s.machine.numbers numbers ∧ t = s.feed numbers

/-- Whether two reactions are the same but for number sources with the same future. -/
structure Reaction.Alike (r : Reaction ρ) (r' : Reaction ρ') : Prop where
  after : r.after.Alike r'.after
  printed : r'.printed = r.printed
  fault : r'.fault = r.fault
  answer : ∀ q, r'.after.answer q = r.after.answer q

namespace Interpreter

variable {s : Interpreter ρ} {t : Interpreter ρ'}

/-! ### Alike before and after -/

theorem Alike.answer_eq (h : s.Alike t) (q : Query) : t.answer q = s.answer q := by
  obtain ⟨numbers, -, rfl⟩ := h
  cases q <;> rfl

theorem alike_of_feed {r : Reaction ρ} {r' : Reaction ρ'} {numbers : ρ'}
    (hn : SameFuture r.after.machine.numbers numbers)
    (h : r' = ⟨r.after.feed numbers, r.printed, r.fault⟩) : r.Alike r' := by
  subst h
  have hafter : r.after.Alike (r.after.feed numbers) := ⟨numbers, hn, rfl⟩
  exact ⟨hafter, rfl, rfl, hafter.answer_eq⟩

theorem dispatch_alike {numbers : ρ'} (hn : SameFuture s.machine.numbers numbers) :
    ∃ numbers', SameFuture s.dispatch.1.machine.numbers numbers' ∧
      (s.feed numbers).dispatch = (s.dispatch.1.feed numbers', s.dispatch.2) := by
  have hword : (s.feed numbers).word = s.word := rfl
  have hdialect : (s.feed numbers).dialect = s.dialect := rfl
  have hmachine : (s.feed numbers).machine = s.machine.feed numbers := rfl
  cases hi : Instruction.ofOpcode? s.word with
  | none =>
    simp only [dispatch, hword, hi]
    exact ⟨numbers, hn, rfl⟩
  | some i =>
    have hexec := Instruction.blind_execute s.dialect i s.machine numbers hn
    simp only [dispatch, hword, hi, hdialect, hmachine]
    generalize (i.execute s.dialect) s.machine = result,
      (i.execute s.dialect) (s.machine.feed numbers) = result' at hexec ⊢
    cases hexec with
    | ok a m numbers' hn => exact ⟨numbers', hn, rfl⟩
    | error f m numbers' hn => exact ⟨numbers', hn, rfl⟩

theorem tick_alike {numbers : ρ'} (hn : SameFuture s.machine.numbers numbers) :
    s.tick.Alike (s.feed numbers).tick := by
  have hfetch : (s.feed numbers).fetch = s.fetch := rfl
  cases hw : s.fetch with
  | error f =>
    rw [tick_of_error hw, tick_of_error (hfetch.trans hw)]
    exact alike_of_feed hn rfl
  | ok w =>
    have hfetched : (s.feed numbers).fetched w = (s.fetched w).feed numbers := rfl
    obtain ⟨numbers', hn', hdispatch⟩ := dispatch_alike (s := s.fetched w) hn
    simp only [tick, hfetch, hw, hfetched, hdispatch]
    exact alike_of_feed hn' rfl

theorem restarted_alike {numbers : ρ'} (hn : SameFuture s.machine.numbers numbers)
    (memory : Memory) :
    Reaction.Alike ⟨s.restarted memory, none, none⟩ ⟨(s.feed numbers).restarted memory, none, none⟩ :=
  alike_of_feed hn rfl

theorem perform_alike (h : s.Alike t) (op : Operation) : (s.perform op).Alike (t.perform op) := by
  obtain ⟨numbers, hn, rfl⟩ := h
  have hmachine : (s.feed numbers).machine = s.machine.feed numbers := rfl
  have hmemory : (s.machine.feed numbers).memory = s.machine.memory := rfl
  have hkeypad : (s.machine.feed numbers).keypad = s.machine.keypad := rfl
  have hframe : (s.machine.feed numbers).frame = s.machine.frame := rfl
  cases op with
  | tick => exact tick_alike hn
  | reset => exact restarted_alike hn (clearAroundFont s.machine.memory)
  | updateTimers | setSwitch => exact alike_of_feed hn rfl
  | loadRom rom =>
    simp only [perform, loadRom_eq_map, hmachine, hmemory]
    generalize (if maxRomSize < rom.length then _ else _ : Except Fault Memory) = result
    cases result <;> exact alike_of_feed hn rfl
  | setKey key pressed =>
    simp only [perform, setKey_eq_map, hmachine, hkeypad]
    cases s.machine.keypad.setKey key pressed <;> exact alike_of_feed hn rfl
  | setLit x y lit =>
    simp only [perform, setLit_eq_map, hmachine, hframe]
    cases s.machine.frame.setLit x y lit <;> exact alike_of_feed hn rfl

theorem reactions_alike (h : s.Alike t) (history : List Operation) :
    List.Forall₂ Reaction.Alike (s.reactions history) (t.reactions history) := by
  induction history generalizing s t with
  | nil => exact .nil
  | cons op history ih => exact .cons (perform_alike h op) (ih (perform_alike h op).after)

/-! ### After a reset -/

theorem reset_alike (hs : s.machine.WellFormed) (ht : t.machine.WellFormed)
    (hchosen : t.chosen = s.chosen) (htracing : t.tracing = s.tracing)
    (hfont : ∀ a, InFont a → t.machine.memory.byteAt a = s.machine.memory.byteAt a)
    (hn : SameFuture s.machine.numbers t.machine.numbers) : s.reset.Alike t.reset := by
  refine ⟨t.machine.numbers, ?_, reset_eq_feed hs ht hchosen htracing hfont⟩
  rwa [numbers_reset]

/-- After any history, a second reset changes nothing. -/
theorem reset_reset (hs : s.machine.WellFormed) : s.reset.reset = s.reset := by
  have hfont (a : Int) (ha : InFont a) :
      s.reset.machine.memory.byteAt a = s.machine.memory.byteAt a := by
    have hlo : 0x50 ≤ a := ha.1
    have hhi : a < 0xA0 := ha.2
    rw [byteAt_reset hs (by omega) (by omega), if_pos ha]
  obtain ⟨hchosen, htracing⟩ := chosen_perform hs .reset
  exact (reset_eq_feed hs (wellFormed_reset hs) hchosen htracing hfont).trans s.reset.feed_self

/-- Resets of two interpreters of one dialect, whatever their histories were, bring them together for
good if their fonts, the future of their number sources and their tracing agree. -/
theorem restart_isolated (dialect : Dialect) (tracing tracing' live : Bool) (numbers : ρ)
    (numbers' : ρ') (before before' : List Operation) :
    let s := ((new dialect tracing numbers).after before).setTracing live
    let t := ((new dialect tracing' numbers').after before').setTracing live
    (∀ a, InFont a → t.machine.memory.byteAt a = s.machine.memory.byteAt a) →
    SameFuture s.machine.numbers t.machine.numbers →
      s.reset.Alike t.reset ∧ (∀ q, t.reset.answer q = s.reset.answer q) ∧
      (∀ history, List.Forall₂ Reaction.Alike (s.reset.reactions history) (t.reset.reactions history)) ∧
      s.reset.reset = s.reset := by
  intro s t hfont hn
  have hnew := wellFormed_new dialect tracing numbers
  have hnew' := wellFormed_new dialect tracing' numbers'
  have hreachable : ((new dialect tracing numbers).after before).Reachable := ⟨_, _, _, _, rfl⟩
  have hreachable' : ((new dialect tracing' numbers').after before').Reachable := ⟨_, _, _, _, rfl⟩
  have hs : s.machine.WellFormed := hreachable.wellFormed
  have ht : t.machine.WellFormed := hreachable'.wellFormed
  have hchosen : t.chosen = s.chosen :=
    (chosen_after hnew' before').1.trans (chosen_after hnew before).1.symm
  have halike : s.reset.Alike t.reset := reset_alike hs ht hchosen rfl hfont hn
  exact ⟨halike, halike.answer_eq, reactions_alike halike, reset_reset hs⟩

/-- One interpreter draws a number and then returns from nowhere, the other calls a subroutine and has a
key, a switch and a cell changed.  Resets bring them together, and the sources go on alike. -/
theorem restart_isolated_cycles :
    let s := ((new Dialect.modern false (Cycle.mk [3, 7] 0)).after
      [.loadRom [0xC0, 0xFF, 0x00, 0xEE], .tick, .tick]).setTracing true
    let t := ((new Dialect.modern true (Cycle.mk [7, 3] 0)).after
      [.loadRom [0x22, 0x00], .tick, .setKey 0xB true, .setSwitch .shift true,
        .setLit 3 4 true]).setTracing true
    s.machine.registers.v.get 0 = 3 ∧ t.machine.stack.entries = [0x202] ∧
      (∀ a, InFont a → t.machine.memory.byteAt a = s.machine.memory.byteAt a) ∧
      SameFuture s.machine.numbers t.machine.numbers ∧ s.reset.Alike t.reset ∧
      ∀ history,
        List.Forall₂ Reaction.Alike (s.reset.reactions history) (t.reset.reactions history) := by
  intro s t
  obtain ⟨hbytes, hv, hentries, hs, ht⟩ :
      (∀ n : Nat, n < 80 →
        t.machine.memory.byteAt (0x50 + n) = s.machine.memory.byteAt (0x50 + n)) ∧
      s.machine.registers.v.get 0 = 3 ∧ t.machine.stack.entries = [0x202] ∧
      (s.machine.numbers.values, s.machine.numbers.drawn) = ([3, 7], 1) ∧
      (t.machine.numbers.values, t.machine.numbers.drawn) = ([7, 3], 0) := by decide +kernel
  have hfont (a : Int) (ha : InFont a) :
      t.machine.memory.byteAt a = s.machine.memory.byteAt a := by
    have hlo : 0x50 ≤ a := ha.1
    have hhi : a < 0xA0 := ha.2
    have ha := hbytes (a - 0x50).toNat (by omega)
    rwa [show (0x50 + ((a - 0x50).toNat : Int)) = a by omega] at ha
  -- one source is a number ahead of the other, for as long as they are drawn from
  have hahead (k n : Nat) : nth (Cycle.mk [3, 7] (k + 1)) n = nth (Cycle.mk [7, 3] k) n := by
    induction n generalizing k with
    | zero =>
      show [3, 7].getD ((k + 1) % 2) 0 = [7, 3].getD (k % 2) 0
      rcases Nat.mod_two_eq_zero_or_one k with h | h
      · rw [Nat.add_mod, h]
        rfl
      · rw [Nat.add_mod, h]
        rfl
    | succ n ih => exact ih (k + 1)
  have hn : SameFuture s.machine.numbers t.machine.numbers := by
    generalize s.machine.numbers = numbers at hs ⊢
    generalize t.machine.numbers = numbers' at ht ⊢
    cases numbers
    cases numbers'
    cases hs
    cases ht
    exact hahead 0
  obtain ⟨halike, -, hreactions, -⟩ :=
    restart_isolated Dialect.modern false true true (Cycle.mk [3, 7] 0) (Cycle.mk [7, 3] 0)
      [.loadRom [0xC0, 0xFF, 0x00, 0xEE], .tick, .tick]
      [.loadRom [0x22, 0x00], .tick, .setKey 0xB true, .setSwitch .shift true, .setLit 3 4 true]
      hfont hn
  exact ⟨hv, hentries, hfont, hn, halike, hreactions⟩

end Interpreter

end Chip8
