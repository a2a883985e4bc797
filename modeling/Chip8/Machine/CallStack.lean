import Chip8.Machine.Fault

/-!
# The call stack

A fixed number of slots outside memory, each holding an integer.  The slots in use come first,
oldest first; a slot that was given up keeps its value until it is used again.  The stack is held as
the entries in use, newest first, and the slots that follow them.
-/

namespace Chip8

/-- A stack of return addresses. -/
structure CallStack where
  /-- The entries in use, newest first. -/
  live : List Int
  /-- The slots not in use, in order, with the values they last held. -/
  spare : List Int
deriving DecidableEq, Inhabited

namespace CallStack

/-- The number of slots of the standard stack. -/
def standardCapacity : Nat := 16

/-- The empty stack of `n` slots, all zero. -/
def empty (n : Nat) : CallStack := ⟨[], List.replicate n 0⟩

/-- The empty stack of any given number of slots, which must fit a machine word; a negative number of
slots is none. -/
def ofSize (n : Int) : Except Fault CallStack := do
  return empty (← wordSize? n).toNat

/-- The number of entries in use. -/
def depth (s : CallStack) : Nat := s.live.length

/-- The number of slots. -/
def capacity (s : CallStack) : Nat := s.live.length + s.spare.length

/-- The entries in use, oldest first. -/
def entries (s : CallStack) : List Int := s.live.reverse

/-- The values of all slots. -/
def slots (s : CallStack) : List Int := s.entries ++ s.spare

/-- Puts an entry into the first slot not in use. -/
def push (s : CallStack) (item : Int) : Except Fault CallStack :=
  match s.spare with
  | [] => .error .stackOverflow
  | _ :: spare => .ok ⟨item :: s.live, spare⟩

/-- Takes the newest entry out of use. -/
def pop (s : CallStack) : Except Fault (Int × CallStack) :=
  match s.live with
  | [] => .error .stackUnderflow
  | item :: live => .ok (item, ⟨live, item :: s.spare⟩)

/-- The stack with no entries and all slots zero. -/
def clear (s : CallStack) : CallStack := empty s.capacity

/-- The value of a slot, in use or not. -/
def slot (s : CallStack) (index : Int) : Except Fault Int :=
  if index < 0 ∨ (s.capacity : Int) ≤ index then .error (.noSuchEntry index)
  else .ok (s.slots.getD index.toNat 0)

/-! ### The slots under each operation -/

@[simp] theorem length_entries (s : CallStack) : s.entries.length = s.depth := by
  simp [entries, depth]

@[simp] theorem length_slots (s : CallStack) : s.slots.length = s.capacity := by
  simp [slots, capacity, depth]

theorem push_eq_error_iff (s : CallStack) (item : Int) (f : Fault) :
    s.push item = .error f ↔ s.spare = [] ∧ f = .stackOverflow := by
  unfold push
  split <;> simp_all [eq_comm]

theorem pop_eq_error_iff (s : CallStack) (f : Fault) :
    s.pop = .error f ↔ s.live = [] ∧ f = .stackUnderflow := by
  unfold pop
  split <;> simp_all [eq_comm]

theorem entries_push {s t : CallStack} {item : Int} (h : s.push item = .ok t) :
    t.entries = s.entries ++ [item] ∧ t.capacity = s.capacity := by
  unfold push at h
  split at h
  · cases h
  · cases h
    simp_all [entries, capacity]
    omega

theorem entries_pop {s t : CallStack} {item : Int} (h : s.pop = .ok (item, t)) :
    s.entries = t.entries ++ [item] ∧ t.capacity = s.capacity := by
  unfold pop at h
  split at h
  · cases h
  · cases h
    simp_all [entries, capacity]
    omega

end CallStack

end Chip8
