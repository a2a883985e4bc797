import Chip8.Proofs.Interpreter.Switches
import Chip8.Startup.Setting
import Mathlib.Data.List.Induction

/-!
# Which position a switch is in

Only a reset and a call that sets the switch itself move a switch (`Interpreter.dialect_of_not_moves`).
So after any history it is in the position of the last call that set it since the last reset, or else in
the one it was chosen to start in (`Interpreter.dialect_after`).
-/

namespace Chip8

namespace Operation

variable {q : Switch}

/-- The call that puts a switch to what a value counts as. -/
def put (q : Switch) (value : Setting) : Operation := .setSwitch q value.isTrue

/-- Whether an operation may move a switch. -/
def Moves (q : Switch) : Operation → Prop
  | .reset => True
  | .setSwitch switch _ => switch = q
  | _ => False

/-- The position that an operation sets a switch to, if it does. -/
def position? (q : Switch) : Operation → Option Bool
  | .setSwitch switch on => if switch = q then some on else none
  | _ => none

/-- The position that the last of the operations since the last reset sets a switch to, of those that
do. -/
def lastPosition? (q : Switch) (history : List Operation) : Option Bool :=
  (history.reverse.takeWhile (· ≠ .reset)).findSome? (position? q)

theorem lastPosition?_reset (history : List Operation) :
    lastPosition? q (history ++ [.reset]) = none := by
  simp [lastPosition?]

theorem lastPosition?_append_of_ne {op : Operation} (hop : op ≠ .reset) (history : List Operation) :
    lastPosition? q (history ++ [op]) = (op.position? q).or (lastPosition? q history) := by
  simp only [lastPosition?, List.reverse_append, List.reverse_singleton, List.singleton_append,
    List.takeWhile_cons, hop, ne_eq, not_false_eq_true, decide_true, if_true, List.findSome?_cons]
  cases op.position? q <;> rfl

theorem position?_of_not_moves {op : Operation} (h : ¬op.Moves q) : op.position? q = none := by
  cases op with
  | setSwitch switch on => exact if_neg h
  | _ => rfl

end Operation

namespace Interpreter

open Operation

variable {ρ : Type} [NumberSource ρ] {s : Interpreter ρ} {q : Switch}

theorem dialect_of_not_moves {op : Operation} (h : ¬op.Moves q) :
    (s.perform op).after.dialect q = s.dialect q := by
  rw [(dialect_perform s op).1]
  cases op with
  | reset => exact absurd trivial h
  | setSwitch switch on => exact Dialect.set_of_ne _ on (Ne.symm h)
  | _ => rfl

/-- A call puts the switch to what the value counts as, and no other switch. -/
theorem dialect_of_put (value : Setting) :
    (s.perform (put q value)).after.dialect = s.dialect.set q value.isTrue :=
  (dialect_perform s (put q value)).1

theorem chosen_eq_after (s : Interpreter ρ) (history : List Operation) :
    (s.after history).chosen = s.chosen := by
  induction history generalizing s with
  | nil => rfl
  | cons op history ih => rw [after_cons, ih, (dialect_perform s op).2]

/-- A switch is where the last call since the last reset put it, else where it was chosen to start. -/
theorem dialect_after (h : s.dialect = s.chosen) (history : List Operation) (q : Switch) :
    (s.after history).dialect q = (lastPosition? q history).getD (s.chosen q) := by
  induction history using List.reverseRecOn with
  | nil => exact congrFun h q
  | append_singleton history op ih =>
    rw [after_append, after_cons, after_nil]
    by_cases hmoves : op.Moves q
    · rw [(dialect_perform _ op).1]
      cases op with
      | reset =>
        rw [lastPosition?_reset, dialectAfter, chosen_eq_after]
        rfl
      | setSwitch switch on =>
        cases hmoves
        have hreset : Operation.setSwitch q on ≠ .reset := by simp
        rw [lastPosition?_append_of_ne hreset, position?, if_pos rfl, dialectAfter, Dialect.set_self]
        rfl
      | _ => exact hmoves.elim
    · have hreset : op ≠ .reset := fun hr => hmoves (hr ▸ trivial)
      rw [dialect_of_not_moves hmoves, ih, lastPosition?_append_of_ne hreset,
        position?_of_not_moves hmoves, Option.none_or]

end Interpreter

end Chip8
