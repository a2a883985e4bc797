import Chip8.Machine.CallStack

/-!
# A stack through moves in turn

A stack is an array of slots with a pointer behind the last one in use (`CallStack.ofSlots`).  A push
writes the slot at the pointer, and a pop only moves the pointer back, so that the entry stays behind in
the array (`CallStack.push_eq_ite`, `CallStack.pop_eq_match`).  Every move, refused or not, does to the
slots in use what it does to a list of at most as many entries as there are slots
(`CallStack.move_onList`), and so does every history of moves (`CallStack.moves_on_bounded_list`).
-/

namespace Chip8

namespace CallStack

/-- Something done to a stack. -/
inductive Move
  | push (item : Int)
  | pop
  | clear
deriving DecidableEq

/-- The stack after a move and the entry that it returns, or why the move is refused. -/
def move (s : CallStack) : Move → Except Fault (CallStack × Option Int)
  | .push item => (s.push item).map (·, none)
  | .pop => s.pop.map fun (item, t) => (t, some item)
  | .clear => .ok (s.clear, none)

/-- The stack after a move, refused or not. -/
def perform (s : CallStack) (m : Move) : CallStack :=
  match s.move m with
  | .ok (after, _) => after
  | .error _ => s

/-- The stack after a history of moves. -/
def after (s : CallStack) (history : List Move) : CallStack := history.foldl perform s

/-- The stack with the slots of an array, the first `depth` of them in use. -/
def ofSlots (slots : List Int) (depth : Nat) : CallStack :=
  ⟨(slots.take depth).reverse, slots.drop depth⟩

namespace Move

/-- What a move makes of a list of at most `n` entries, oldest first, and the entry that it returns. -/
def onList (n : Nat) (l : List Int) : Move → Except Fault (List Int × Option Int)
  | .push item => if l.length = n then .error .stackOverflow else .ok (l ++ [item], none)
  | .pop =>
    match l.getLast? with
    | none => .error .stackUnderflow
    | some item => .ok (l.dropLast, some item)
  | .clear => .ok ([], none)

/-- The list after a move, refused or not. -/
def leaves (n : Nat) (l : List Int) (m : Move) : List Int :=
  match m.onList n l with
  | .ok (after, _) => after
  | .error _ => l

end Move

/-! ### The array and its pointer -/

theorem ofSize_eq_ite (n : Nat) :
    ofSize n = if n < 9223372036854775808 then .ok (empty n) else .error .sizeTooWide := by
  rw [ofSize, wordSize?_natCast]
  split <;> rfl

/-- The slots that a stack puts in front are those in use. -/
theorem take_depth_slots (s : CallStack) : s.slots.take s.depth = s.entries := by
  rw [slots, ← length_entries, List.take_left]

theorem ofSlots_slots (s : CallStack) : ofSlots s.slots s.depth = s := by
  have hspare : s.slots.drop s.depth = s.spare := by
    rw [slots, ← length_entries, List.drop_left]
  rw [ofSlots, take_depth_slots, hspare, entries, List.reverse_reverse]

theorem push_eq_ite (s : CallStack) (item : Int) :
    s.push item =
      if s.depth = s.capacity then .error .stackOverflow
      else .ok (ofSlots (s.slots.set s.depth item) (s.depth + 1)) := by
  obtain ⟨live, spare⟩ := s
  cases spare with
  | nil => exact (if_pos rfl).symm
  | cons old spare =>
    have hwritten : (slots ⟨live, old :: spare⟩).set live.length item =
        (live.reverse ++ [item]) ++ spare := by
      simp [slots, entries]
    have hlength : live.length + 1 = (live.reverse ++ [item]).length := by simp
    rw [if_neg (by simp [depth, capacity]), push]
    show _ = Except.ok (ofSlots ((slots ⟨live, old :: spare⟩).set live.length item) (live.length + 1))
    rw [hwritten, ofSlots, hlength, List.take_left, List.drop_left]
    simp

theorem pop_eq_match (s : CallStack) :
    s.pop =
      match s.entries.getLast? with
      | none => .error .stackUnderflow
      | some item => .ok (item, ofSlots s.slots (s.depth - 1)) := by
  obtain ⟨live, spare⟩ := s
  cases live with
  | nil => rfl
  | cons item live =>
    have hslots : slots ⟨item :: live, spare⟩ = live.reverse ++ (item :: spare) := by
      simp [slots, entries]
    have hlength : depth ⟨item :: live, spare⟩ - 1 = live.reverse.length := by simp [depth]
    rw [hslots, hlength, ofSlots, List.take_left, List.drop_left, List.reverse_reverse, entries,
      List.getLast?_reverse]
    rfl

theorem slot_eq_ite (s : CallStack) (i : Int) :
    s.slot i =
      if i < 0 ∨ s.capacity ≤ i then .error (.noSuchEntry i) else .ok (s.slots.getD i.toNat 0) :=
  rfl

/-- A slot in use holds the entry of its place. -/
theorem slot_of_entries (s : CallStack) {i : Nat} {item : Int} (h : s.entries[i]? = some item) :
    s.slot i = .ok item := by
  have hi : i < s.depth := by
    rw [← length_entries]
    exact (List.getElem?_eq_some_iff.1 h).1
  have hcapacity : s.depth ≤ s.capacity := Nat.le_add_right _ _
  have hslot : s.slots[i]? = some item := by
    rw [← h, ← take_depth_slots, List.getElem?_take_of_lt hi]
  rw [slot_eq_ite, if_neg (by omega), Int.toNat_natCast, List.getD_eq_getElem?_getD, hslot]
  rfl

/-! ### One move -/

@[simp] theorem capacity_empty (n : Nat) : (empty n).capacity = n := by simp [empty, capacity]

theorem capacity_perform (s : CallStack) (m : Move) : (s.perform m).capacity = s.capacity := by
  unfold perform
  cases m with
  | push item =>
    cases h : s.push item with
    | error f => simp [move, h, Except.map]
    | ok t => simpa [move, h, Except.map] using (entries_push h).2
  | pop =>
    cases h : s.pop with
    | error f => simp [move, h, Except.map]
    | ok result => simpa [move, h, Except.map] using (entries_pop h).2
  | clear => exact capacity_empty _

/-- A move does to the entries of a stack what it does to a list, and answers alike. -/
theorem move_onList (s : CallStack) (m : Move) :
    (s.move m).map (fun (t, item) => (t.entries, item)) = m.onList s.capacity s.entries := by
  cases m with
  | push item =>
    have hfull : s.entries.length = s.capacity ↔ s.spare = [] := by
      simp [capacity, depth]
    rw [Move.onList]
    cases h : s.push item with
    | error f =>
      obtain ⟨hspare, rfl⟩ := (push_eq_error_iff s item f).1 h
      rw [if_pos (hfull.2 hspare), move, h]
      rfl
    | ok t =>
      have hspare : s.spare ≠ [] := by
        intro hnil
        cases h.symm.trans ((push_eq_error_iff s item _).2 ⟨hnil, rfl⟩)
      rw [if_neg (mt hfull.1 hspare), move, h, ← (entries_push h).1]
      rfl
  | pop =>
    rw [Move.onList]
    cases h : s.pop with
    | error f =>
      obtain ⟨hlive, rfl⟩ := (pop_eq_error_iff s f).1 h
      rw [move, h, entries, hlive]
      rfl
    | ok result =>
      obtain ⟨item, t⟩ := result
      rw [move, h, (entries_pop h).1, List.getLast?_concat, List.dropLast_concat]
      rfl
  | clear => rfl

theorem perform_of_error {s : CallStack} {m : Move} {f : Fault} (h : s.move m = .error f) :
    s.perform m = s := by
  rw [perform, h]

theorem entries_perform (s : CallStack) (m : Move) :
    (s.perform m).entries = m.leaves s.capacity s.entries := by
  rw [perform, Move.leaves, ← move_onList]
  cases s.move m <;> rfl

/-! ### Moves in turn -/

theorem after_cons (s : CallStack) (m : Move) (history : List Move) :
    s.after (m :: history) = (s.perform m).after history := rfl

theorem entries_after (s : CallStack) (history : List Move) :
    (s.after history).capacity = s.capacity ∧
      (s.after history).entries = history.foldl (Move.leaves s.capacity) s.entries := by
  induction history generalizing s with
  | nil => exact ⟨rfl, rfl⟩
  | cons m history ih =>
    obtain ⟨hcapacity, hentries⟩ := ih (s.perform m)
    rw [capacity_perform] at hcapacity hentries
    refine ⟨hcapacity, ?_⟩
    rw [after_cons, hentries, entries_perform, List.foldl_cons]

/-- Whatever is done to a new stack of `n` slots, refused or not, the slots in use are a list of at most
`n` entries to which the same is done. -/
theorem moves_on_bounded_list (n : Nat) (history : List Move) :
    let s := (empty n).after history
    let l := history.foldl (Move.leaves n) []
    ofSize n = (if n < 9223372036854775808 then .ok (empty n) else .error .sizeTooWide) ∧
    (s.depth = l.length ∧ s.entries = l ∧ s.slots.take l.length = l ∧ s.slots.length = n ∧ l.length ≤ n) ∧
    (∀ m, (s.move m).map (fun (t, item) => (t.entries, item)) = m.onList n l) ∧
    (∀ m f, s.move m = .error f → s.perform m = s) ∧
    (∀ item, s.push item =
      if l.length = n then .error .stackOverflow
      else .ok (ofSlots (s.slots.set l.length item) (l.length + 1))) ∧
    (s.pop =
      match l.getLast? with
      | none => .error .stackUnderflow
      | some item => .ok (item, ofSlots s.slots (l.length - 1))) ∧
    s.clear = ofSlots (List.replicate n 0) 0 ∧
    s = ofSlots s.slots l.length ∧
    (∀ i f, s.slot i = .error f ↔ (i < 0 ∨ n ≤ i) ∧ f = .noSuchEntry i) ∧
    ∀ (i : Nat) (item : Int), l[i]? = some item → s.slot i = .ok item := by
  intro s l
  obtain ⟨hcapacity, hentries⟩ : s.capacity = n ∧ s.entries = l := by
    have h := entries_after (empty n) history
    rwa [capacity_empty] at h
  have hdepth : s.depth = l.length := by rw [← hentries, length_entries]
  have htake : s.slots.take l.length = l := by rw [← hdepth, take_depth_slots, hentries]
  have hslots : s.slots.length = n := by rw [length_slots, hcapacity]
  have hle : s.depth ≤ s.capacity := Nat.le_add_right _ _
  refine ⟨ofSize_eq_ite n, ⟨hdepth, hentries, htake, hslots, by omega⟩, fun m => ?_,
    fun m f => perform_of_error, fun item => ?_, ?_, ?_, ?_, fun i f => ?_, fun i item hi => ?_⟩
  · rw [move_onList, hcapacity, hentries]
  · rw [push_eq_ite, hcapacity, hdepth]
  · rw [pop_eq_match, hentries, hdepth]
  · rw [clear, hcapacity]
    rfl
  · rw [← hdepth, ofSlots_slots]
  · rw [slot_eq_ite, hcapacity]
    split
    · next hout => simp [hout, eq_comm]
    · next hin => simp [hin]
  · exact s.slot_of_entries (hentries ▸ hi)

-- What was popped stays behind in its slot.
example : ((empty 2).after [.push 7, .push 8, .pop]).slots = [7, 8] := by decide

end CallStack

end Chip8
