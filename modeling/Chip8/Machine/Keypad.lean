import Chip8.Machine.Fault
import Chip8.Machine.Key

/-!
# The keypad

Sixteen keys, each down or up.
-/

namespace Chip8

/-- The state of the keys: whether each is down. -/
structure Keypad where
  down : Vector Bool 16
deriving DecidableEq, Inhabited

namespace Keypad

/-- The keypad with all keys up. -/
def allUp : Keypad := ⟨Vector.replicate 16 false⟩

/-- Presses or releases a key. -/
def setKey (k : Keypad) (key : Int) (pressed : Bool) : Except Fault Keypad :=
  if h : 0 ≤ key ∧ key < 16 then .ok ⟨k.down.set key.toNat pressed (toNat_lt_sixteen h)⟩
  else .error (.noSuchKey key)

/-- Whether the key named by the low four bits of an integer is down. -/
def isDown (k : Keypad) (key : Int) : Bool :=
  k.down.get ⟨(key % 16).toNat, by omega⟩

/-- The keys that are down, ascending. -/
def pressed (k : Keypad) : List Key := Key.all.filter fun key => k.down.get key

/-- The lowest key that is down. -/
def firstPressed (k : Keypad) : Option Key := k.pressed.head?

/-! ### Single keys -/

theorem get_setKey {k after : Keypad} {key : Int} {pressed : Bool}
    (h : k.setKey key pressed = .ok after) (j : Key) :
    after.down.get j = if (j.val : Int) = key then pressed else k.down.get j := by
  unfold setKey at h
  split at h
  · cases h
    rw [Key.get_set]
    congr 1
    exact propext (by omega)
  · cases h

theorem mem_pressed_iff (k : Keypad) (j : Key) : j ∈ k.pressed ↔ k.down.get j = true := by
  simp [pressed, Key.mem_all]

theorem firstPressed_eq_none_iff (k : Keypad) :
    k.firstPressed = none ↔ ∀ j, k.down.get j = false := by
  rw [firstPressed, List.head?_eq_none_iff, List.eq_nil_iff_forall_not_mem]
  simp [mem_pressed_iff]

/-- The key pressed first is down, and no lower one is. -/
theorem lowest_of_firstPressed {k : Keypad} {key : Key} (h : k.firstPressed = some key) :
    k.down.get key = true ∧ ∀ j < key, k.down.get j = false := by
  rw [firstPressed, pressed, List.head?_filter, List.find?_eq_some_iff_getElem] at h
  obtain ⟨hdown, n, hn, hkey, hbefore⟩ := h
  have hindex : n = key.val := by simp [← hkey, Key.all]
  refine ⟨hdown, fun j hj => ?_⟩
  have hup := hbefore j.val (by rw [hindex]; exact hj)
  simpa [Key.all] using hup

end Keypad

end Chip8
