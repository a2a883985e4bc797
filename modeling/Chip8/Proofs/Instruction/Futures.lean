import Chip8.Proofs.Instruction.Effect

/-!
# Instructions and the future of the number source

All that an instruction learns of the number source is the numbers to come.  Computations of this kind
are `Blind`: on machines that are the same but for sources with the same future they end alike.  The
rules for `Blind` follow how computations are put together, and every instruction keeps to them
(`blind_execute`).  The same walk shows that no instruction refuses a word (`legal_execute`), which only
the interpreter does.
-/

namespace Chip8

variable {α β ρ ρ' : Type}

namespace NumberSource

variable [NumberSource ρ] [NumberSource ρ'] {a : ρ} {b : ρ'}

/-- Whether two sources give the same numbers for ever. -/
def SameFuture (a : ρ) (b : ρ') : Prop := ∀ n, nth a n = nth b n

theorem SameFuture.refl (a : ρ) : SameFuture a a := fun _ => rfl

theorem SameFuture.fst_draw (h : SameFuture a b) : (draw a).1 = (draw b).1 := h 0

theorem SameFuture.snd_draw (h : SameFuture a b) : SameFuture (draw a).2 (draw b).2 :=
  fun n => h (n + 1)

end NumberSource

open NumberSource

/-- The machine with another number source. -/
def Machine.feed (m : Machine ρ) (numbers : ρ') : Machine ρ' := { m with numbers }

/-! ### Attempts that refuse no word -/

/-- Whether a fault is about a word that is no instruction. -/
def Fault.isIllegal : Fault → Bool
  | illegal _ _ _ => true
  | _ => false

/-- Whether an attempt fails for no word that is no instruction. -/
def Legal (result : Except Fault α) : Prop := ∀ f, result = .error f → f.isIllegal = false

theorem legal_ok (a : α) : Legal (.ok a) := nofun

theorem legal_error {f : Fault} (h : f.isIllegal = false) : Legal (.error f : Except Fault α) := by
  rintro _ ⟨⟩
  exact h

theorem Legal.bind {result : Except Fault α} {next : α → Except Fault β} (h : Legal result)
    (hnext : ∀ a, Legal (next a)) : Legal (result >>= next) := by
  cases result with
  | ok a => exact hnext a
  | error f => exact legal_error (h f rfl)

namespace Memory

theorem legal_check (m : Memory) (loc count : Int) : Legal (m.check loc count) := by
  unfold check
  split
  · exact legal_error rfl
  · exact legal_ok ()

theorem legal_read (m : Memory) (loc : Int) : Legal (m.read loc) :=
  (m.legal_check loc 1).bind fun _ => legal_ok _

theorem legal_readBlock (m : Memory) (loc count : Int) : Legal (m.readBlock loc count) :=
  (m.legal_check loc count).bind fun _ => legal_ok _

theorem legal_writeBlock (m : Memory) (loc : Int) (block : List UInt8) :
    Legal (m.writeBlock loc block) := by
  unfold writeBlock
  split
  · exact legal_ok m
  · exact (m.legal_check loc block.length).bind fun _ => legal_ok _

theorem legal_byte? (value : Int) : Legal (byte? value) := by
  unfold byte?
  split
  · exact legal_ok _
  · exact legal_error rfl

end Memory

namespace CallStack

theorem legal_push (s : CallStack) (item : Int) : Legal (s.push item) := by
  rintro f hf
  rw [((push_eq_error_iff s item f).1 hf).2]
  rfl

theorem legal_pop (s : CallStack) : Legal s.pop := by
  rintro f hf
  rw [((pop_eq_error_iff s f).1 hf).2]
  rfl

end CallStack

namespace Frame

theorem legal_modulo (a b : Int) : Legal (modulo a b) := by
  unfold modulo
  split
  · exact legal_error rfl
  · exact legal_ok _

theorem legal_toggleAt (f : Frame) (loc : Int) : Legal (f.toggleAt loc) :=
  (f.plane.legal_read loc).bind fun _ => legal_ok _

theorem legal_toggle (f : Frame) (x y : Int) (wrap : Bool) : Legal (f.toggle x y wrap) := by
  unfold toggle
  split
  · refine (legal_modulo x f.width).bind fun x => (legal_modulo y f.height).bind fun y => ?_
    exact (f.legal_toggleAt _).bind fun _ => legal_ok _
  · split
    · exact legal_ok _
    · exact (f.legal_toggleAt _).bind fun _ => legal_ok _

theorem legal_toggleAll (wrap : Bool) (cells : List (Int × Int)) {f g : Frame} {fault : Fault}
    (h : toggleAll wrap cells f = .error fault g) : fault.isIllegal = false := by
  induction cells generalizing f with
  | nil => cases h
  | cons cell cells ih =>
    obtain ⟨x, y⟩ := cell
    simp only [toggleAll] at h
    split at h
    · next ht =>
      cases h
      exact legal_toggle _ _ _ _ _ ht
    · next erased f' _ =>
      cases hrest : toggleAll wrap cells f' with
      | error fault' g' =>
        simp only [Functor.map, EStateM.map, hrest] at h
        cases h
        exact ih hrest
      | ok more g' =>
        simp only [Functor.map, EStateM.map, hrest] at h
        cases h

end Frame

/-! ### Computations -/

namespace Action

variable [NumberSource ρ] [NumberSource ρ']

/-- Results that are the same but for sources with the same future, and no refusal of a word. -/
inductive Matches : EStateM.Result Fault (Machine ρ) α → EStateM.Result Fault (Machine ρ') α → Prop
  | ok (a : α) (m : Machine ρ) (b : ρ') (future : SameFuture m.numbers b) :
    Matches (.ok a m) (.ok a (m.feed b))
  | error (f : Fault) (m : Machine ρ) (b : ρ') (future : SameFuture m.numbers b)
    (legal : f.isIllegal = false) : Matches (.error f m) (.error f (m.feed b))

/-- Computations that end alike on machines that are the same but for sources with the same future. -/
def Blind (act : Action ρ α) (act' : Action ρ' α) : Prop :=
  ∀ (m : Machine ρ) (b : ρ'), SameFuture m.numbers b → Matches (act m) (act' (m.feed b))

theorem blind_pure (a : α) : Blind (pure a : Action ρ α) (pure a : Action ρ' α) :=
  fun m b h => .ok a m b h

theorem Blind.bind {act : Action ρ α} {act' : Action ρ' α} {next : α → Action ρ β}
    {next' : α → Action ρ' β} (h : Blind act act') (hnext : ∀ a, Blind (next a) (next' a)) :
    Blind (act >>= next) (act' >>= next') := by
  intro m b hb
  have hact := h m b hb
  show Matches (EStateM.bind act next m) (EStateM.bind act' next' (m.feed b))
  rw [EStateM.bind, EStateM.bind]
  generalize act m = result, act' (m.feed b) = result' at hact ⊢
  cases hact with
  | ok a m b hb => exact hnext a m b hb
  | error f m b hb hlegal => exact .error f m b hb hlegal

/-- The machine may be read, for all of it but the source is the same. -/
theorem Blind.get {next : Machine ρ → Action ρ α} {next' : Machine ρ' → Action ρ' α}
    (h : ∀ m b, SameFuture m.numbers b → Matches (next m m) (next' (m.feed b) (m.feed b))) :
    Blind (MonadState.get >>= next) (MonadState.get >>= next') :=
  h

/-- An attempt leaves the machine alone. -/
theorem Matches.attempt_bind {result : Except Fault α} {next : α → Action ρ β}
    {next' : α → Action ρ' β} {m : Machine ρ} {b : ρ'} (h : Legal result)
    (hb : SameFuture m.numbers b) (hnext : ∀ a, Matches (next a m) (next' a (m.feed b))) :
    Matches ((attempt result >>= next) m) ((attempt result >>= next') (m.feed b)) := by
  cases result with
  | ok a => exact hnext a
  | error f => exact .error f m b hb (h f rfl)

theorem blind_attempt {result : Except Fault α} (h : Legal result) :
    Blind (attempt result : Action ρ α) (attempt result : Action ρ' α) := by
  intro m b hb
  cases result with
  | ok a => exact .ok a m b hb
  | error f => exact .error f m b hb (h f rfl)

theorem blind_onFrame {act : EStateM Fault Frame α}
    (h : ∀ f fault g, act f = .error fault g → fault.isIllegal = false) :
    Blind (onFrame act : Action ρ α) (onFrame act : Action ρ' α) := by
  intro m b hb
  have hframe : (m.feed b).frame = m.frame := rfl
  simp only [onFrame, hframe]
  cases hact : act m.frame with
  | ok a frame => exact .ok a { m with frame } b hb
  | error fault frame => exact .error fault { m with frame } b hb (h _ _ _ hact)

theorem blind_onRegisters (f : Registers → Registers) :
    Blind (onRegisters f : Action ρ Unit) (onRegisters f : Action ρ' Unit) :=
  fun m b h => .ok () { m with registers := f m.registers } b h

theorem blind_setV (x : Register) (n : UInt8) :
    Blind (setV x n : Action ρ Unit) (setV x n : Action ρ' Unit) :=
  blind_onRegisters _

theorem blind_registers : Blind (registers : Action ρ Registers) (registers : Action ρ' Registers) :=
  fun m b h => .ok m.registers m b h

theorem blind_v (x : Register) : Blind (v x : Action ρ UInt8) (v x : Action ρ' UInt8) :=
  fun m b h => .ok (m.registers.v.get x) m b h

theorem blind_drawNumber : Blind (drawNumber : Action ρ Int) (drawNumber : Action ρ' Int) := by
  intro m b h
  show Matches _ (.ok (draw b).1 _)
  rw [← h.fst_draw]
  exact .ok _ { m with numbers := (draw m.numbers).2 } (draw b).2 h.snd_draw

end Action

/-! ### Instructions -/

namespace Instruction

open Chip8.Action

variable [NumberSource ρ] [NumberSource ρ']

theorem blind_writeAtIndex (block : List UInt8) :
    Blind (writeAtIndex block : Action ρ Unit) (writeAtIndex block : Action ρ' Unit) :=
  Blind.get fun m b h => .attempt_bind (m.memory.legal_writeBlock m.registers.i block) h
    fun memory => .ok () { m with memory } b h

theorem blind_drawRows (wrap : Bool) (x y : Int) (rows : List Nat) :
    Blind (drawRows wrap x y rows : Action ρ Bool) (drawRows wrap x y rows : Action ρ' Bool) := by
  induction rows with
  | nil => exact blind_pure _
  | cons row rows ih =>
    refine Blind.get fun m b h => .attempt_bind (m.memory.legal_read _) h fun bits => ?_
    refine (blind_onFrame fun f fault g => Frame.legal_toggleAll _ _).bind (fun erased => ?_) m b h
    exact ih.bind fun more => blind_pure _

theorem blind_executeDraw (d : Dialect) (x y : Register) (rows : Nat) :
    Blind (executeDraw d x y rows : Action ρ Unit) (executeDraw d x y rows : Action ρ' Unit) := by
  refine Blind.get fun m b h => ?_
  refine (blind_v x).bind (fun vx => ?_) m b h
  refine (blind_attempt (Frame.legal_modulo _ _)).bind fun left => ?_
  refine (blind_v y).bind fun vy => (blind_attempt (Frame.legal_modulo _ _)).bind fun upper => ?_
  exact (blind_drawRows _ _ _ _).bind fun erased => blind_setV _ _

theorem blind_executeAlu (d : Dialect) (op : Alu) (x y : Register) :
    Blind (executeAlu d op x y : Action ρ Unit) (executeAlu d op x y : Action ρ' Unit) := by
  refine (blind_v x).bind fun a => ?_
  refine (blind_v (if op.isShift && d .shift then x else y)).bind fun b => ?_
  refine (blind_setV x _).bind fun _ => ?_
  cases op.flag d a b with
  | some on => exact blind_setV _ _
  | none => exact blind_pure ()

theorem blind_execute (d : Dialect) (i : Instruction) :
    Blind (i.execute d : Action ρ Unit) (i.execute d : Action ρ' Unit) := by
  cases i with
  | ret =>
    refine Blind.get fun m b h => .attempt_bind m.stack.legal_pop h fun popped => ?_
    cases popped
    exact .ok () _ b h
  | call target =>
    refine Blind.get fun m b h => .attempt_bind (m.stack.legal_push _) h fun stack => ?_
    exact .ok () _ b h
  | alu op x y => exact blind_executeAlu d op x y
  | random x mask => exact blind_drawNumber.bind fun _ => blind_setV _ _
  | draw x y rows => exact blind_executeDraw d x y rows.val
  | getDelay x =>
    refine blind_registers.bind fun r => ?_
    exact (blind_attempt (Memory.legal_byte? _)).bind fun _ => blind_setV _ _
  | awaitKey x =>
    refine Blind.get fun m b h => ?_
    have hkeypad : (m.feed b).keypad = m.keypad := rfl
    rw [hkeypad]
    cases m.keypad.firstPressed with
    | none => exact .ok () _ b h
    | some key => exact .ok () _ b h
  | addIndex x =>
    refine blind_registers.bind fun r => (blind_v x).bind fun vx => ?_
    refine (blind_onRegisters _).bind fun _ => ?_
    cases d .indexOverflow with
    | false => exact blind_pure ()
    | true => exact blind_setV _ _
  | storeDigits x => exact (blind_v x).bind fun _ => blind_writeAtIndex _
  | store x =>
    exact blind_registers.bind fun r => (blind_writeAtIndex _).bind fun _ => blind_onRegisters _
  | load x =>
    refine Blind.get fun m b h => .attempt_bind (m.memory.legal_readBlock _ _) h fun block => ?_
    exact .ok () _ b h
  | _ => exact fun _ b h => .ok () _ b h

end Instruction

end Chip8
