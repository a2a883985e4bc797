import Chip8.Host.FrontEnd
import Chip8.Proofs.Controls.Handover
import Chip8.Proofs.Instruction.Effect

/-!
# Typed keys and the keypad

A key found by a poll is held until its release, and only changes are passed on to the keypad.  Along
turns in any order, `Handover.found` records which key was found at what time and `Handover.passed` the
changes passed on.  The two determine what a poll keeps (`Handover.Kept`, `Handover.kept_run`), so a
keypad that starts clear and gets these changes shows the keys that were reported.  A poll in a session
is such turns (`Handover.exists_turns_of_poll`), with a fifth of a second from a find to its release
(`Handover.keypad_in_step`).
-/

namespace Chip8

open Instruction (bind_of_ok)

/-- The keypad after changes of keys, up to the first that it refuses. -/
def Keypad.press (keypad : Keypad) (changes : List (Int × Bool)) : Except Fault Keypad :=
  changes.foldlM (fun keypad change => keypad.setKey change.1 change.2) keypad

/-- The changes of one key, among changes of keys. -/
def changesOf (k : Key) (changes : List (Key × Bool)) : List Bool :=
  changes.filterMap fun change => if change.1 = k then some change.2 else none

/-- Whether a list goes true, false, true and so on. -/
def Alternates (bs : List Bool) : Prop := ∀ n b, bs[n]? = some b → (b = true ↔ n % 2 = 0)

theorem alternates_nil : Alternates [] := nofun

theorem Alternates.concat {bs : List Bool} {b : Bool} (h : Alternates bs)
    (hb : b = true ↔ bs.length % 2 = 0) : Alternates (bs ++ [b]) := by
  intro n c hc
  by_cases hn : n < bs.length
  · rw [List.getElem?_append_left hn] at hc
    exact h n c hc
  · rw [List.getElem?_append_right (Nat.not_lt.1 hn)] at hc
    obtain ⟨hlt, rfl⟩ := List.getElem?_eq_some_iff.1 hc
    have hlen : n - bs.length < 1 := hlt
    obtain rfl : n = bs.length := by omega
    simpa using hb

theorem Alternates.getLast?_getD {bs : List Bool} (h : Alternates bs) :
    bs.getLast?.getD false = true ↔ bs.length % 2 = 1 := by
  rw [List.getLast?_eq_getElem?]
  cases hlast : bs[bs.length - 1]? with
  | none =>
    have hnil := List.getElem?_eq_none_iff.1 hlast
    simp only [Option.getD_none, Bool.false_eq_true, false_iff]
    omega
  | some b =>
    obtain ⟨hlt, -⟩ := List.getElem?_eq_some_iff.1 hlast
    rw [Option.getD_some, h _ b hlast]
    omega

/-! ### Changes of one key -/

theorem changesOf_append (k : Key) (changes more : List (Key × Bool)) :
    changesOf k (changes ++ more) = changesOf k changes ++ changesOf k more :=
  List.filterMap_append

theorem changesOf_cons (k : Key) (change : Key × Bool) (changes : List (Key × Bool)) :
    changesOf k (change :: changes) =
      (if change.1 = k then [change.2] else []) ++ changesOf k changes := by
  by_cases hk : change.1 = k
  · simp [changesOf, hk]
  · simp [changesOf, hk]

theorem filterMap_eq_of_nodup {α β : Type} [DecidableEq α] (f : α → Option β) {a : α} {xs : List α}
    (hn : xs.Nodup) (ha : a ∈ xs) :
    xs.filterMap (fun x => if x = a then f x else none) = (f a).toList := by
  induction xs with
  | nil => cases ha
  | cons x xs ih =>
    obtain ⟨hx, hn'⟩ := List.nodup_cons.1 hn
    by_cases hxa : x = a
    · subst hxa
      have hrest : xs.filterMap (fun y => if y = x then f y else none) = [] := by
        rw [List.filterMap_eq_nil_iff]
        intro y hy
        exact if_neg fun (he : y = x) => hx (he ▸ hy)
      cases hf : f x with
      | none => simp [hf, hrest]
      | some b => simp [hf, hrest]
    · have ha' : a ∈ xs := (List.mem_cons.1 ha).resolve_left fun he => hxa he.symm
      simpa [hxa] using ih hn' ha'

theorem changesOf_changes {τ : Type} (h : HoldScale τ) (now : τ) (s : HeldKeys τ) (k : Key) :
    changesOf k (s.changes h now) =
      if s.isDown h now k = s.reported.get k then [] else [s.isDown h now k] := by
  have hf : changesOf k (s.changes h now) = Key.all.filterMap fun j =>
      if j = k then
        (if s.isDown h now j != s.reported.get j then some (s.isDown h now j) else none)
      else none := by
    rw [changesOf, HeldKeys.changes, List.filterMap_map, List.filterMap_filter]
    congr 1
    funext j
    by_cases hj : j = k
    · simp [hj]
    · simp [hj]
  have hn : Key.all.Nodup := List.nodup_finRange 16
  rw [hf, filterMap_eq_of_nodup _ hn (Key.mem_all k)]
  by_cases hd : s.isDown h now k = s.reported.get k
  · simp [hd]
  · simp [hd]

theorem deadline_report {τ : Type} (h : HoldScale τ) (now : τ) (s : HeldKeys τ) :
    (s.report h now).deadline = s.deadline := by
  simp only [HeldKeys.report]

theorem get_report {τ : Type} (h : HoldScale τ) (now : τ) (s : HeldKeys τ) (k : Key) :
    (s.report h now).reported.get k = s.isDown h now k :=
  Vector.getElem_ofFn k.isLt

theorem bounds_of_mem_asKeys {changes : List (Key × Bool)} {change : Int × Bool}
    (h : change ∈ Controls.asKeys changes) : 0 ≤ change.1 ∧ change.1 < 16 := by
  obtain ⟨⟨k, pressed⟩, -, rfl⟩ := List.mem_map.1 h
  have := k.lt
  show 0 ≤ (k.val : Int) ∧ (k.val : Int) < 16
  omega

/-- No change is refused, and the last change of a key is what the keypad shows. -/
theorem press_asKeys (keypad : Keypad) (changes : List (Key × Bool)) :
    ∃ after, keypad.press (Controls.asKeys changes) = .ok after ∧
      ∀ k, after.down.get k = (changesOf k changes).getLast?.getD (keypad.down.get k) := by
  induction changes generalizing keypad with
  | nil => exact ⟨keypad, rfl, fun _ => rfl⟩
  | cons change changes ih =>
    obtain ⟨j, pressed⟩ := change
    have hin : 0 ≤ (j.val : Int) ∧ (j.val : Int) < 16 := by
      have := j.lt
      omega
    obtain ⟨next, hnext⟩ : ∃ next, keypad.setKey j.val pressed = .ok next :=
      ⟨_, by rw [Keypad.setKey, dif_pos hin]⟩
    obtain ⟨after, hafter, hget⟩ := ih next
    refine ⟨after, ?_, fun k => ?_⟩
    · show (keypad.setKey j.val pressed >>= fun next => next.press (Controls.asKeys changes)) = _
      rw [hnext]
      exact hafter
    · rw [hget k, Keypad.get_setKey hnext k, changesOf_cons]
      by_cases hk : j = k
      · subst hk
        simp [List.getLast?_cons]
      · have hne : (k.val : Int) ≠ j.val := fun he => hk (Fin.ext (by omega))
        simp [hk, hne]

namespace Handover

variable {τ : Type}

/-! ### Records along turns -/

/-- What turns add to a record, one after another. -/
def record {α : Type} (h : HoldScale τ) (note : Handover τ → Turn τ → List α) (s : Handover τ) :
    List (Turn τ) → List α
  | [] => []
  | t :: ts => note s t ++ record h note (s.next h t) ts

/-- The key that a turn finds, with the time of the poll. -/
def foundIn (s : Handover τ) : Turn τ → List (Key × τ)
  | .take =>
    match s.polling, s.queue with
    | some now, .key k :: _ => [(k, now)]
    | _, _ => []
  | _ => []

/-- The changes that a turn passes on, which is the last of a poll. -/
def passedIn (h : HoldScale τ) (s : Handover τ) : Turn τ → List (Key × Bool)
  | .take =>
    match s.polling, s.queue with
    | some now, [] => s.typed.held.changes h now
    | _, _ => []
  | _ => []

/-- The keys that turns find, each with the time of the poll. -/
def found (h : HoldScale τ) (s : Handover τ) (turns : List (Turn τ)) : List (Key × τ) :=
  record h foundIn s turns

/-- The changes that turns pass on. -/
def passed (h : HoldScale τ) (s : Handover τ) (turns : List (Turn τ)) : List (Key × Bool) :=
  record h (passedIn h) s turns

/-- The release of a key that was found as recorded; before every time if it never was. -/
def releaseOf (h : HoldScale τ) (found : List (Key × τ)) (k : Key) : τ :=
  match found.reverse.lookup k with
  | none => h.start
  | some now => h.release now

variable {h : HoldScale τ} {s : Handover τ}

theorem releaseOf_concat (found : List (Key × τ)) (j k : Key) (now : τ) :
    releaseOf h (found ++ [(j, now)]) k = if j = k then h.release now else releaseOf h found k := by
  rw [releaseOf, List.reverse_append, List.reverse_singleton, List.singleton_append, List.lookup_cons]
  by_cases hk : j = k
  · subst hk
    simp
  · have hne : (k == j) = false := beq_false_of_ne (Ne.symm hk)
    rw [hne, if_neg hk]
    rfl

theorem lookup_reverse_eq_some_iff {found : List (Key × τ)} {k : Key} {time : τ} :
    found.reverse.lookup k = some time ↔
      ∃ earlier later, found = earlier ++ (k, time) :: later ∧ ∀ find ∈ later, find.1 ≠ k := by
  rw [List.lookup_eq_some_iff]
  constructor
  · rintro ⟨later, earlier, hsplit, hlater⟩
    refine ⟨earlier.reverse, later.reverse, ?_, fun find hfind => ?_⟩
    · rw [List.reverse_eq_append_iff, List.reverse_cons, List.append_assoc] at hsplit
      exact hsplit
    · exact (bne_iff_ne.1 (hlater find (List.mem_reverse.1 hfind))).symm
  · rintro ⟨earlier, later, rfl, hlater⟩
    refine ⟨later.reverse, earlier.reverse, by simp, fun find hfind => ?_⟩
    exact bne_iff_ne.2 (hlater find (List.mem_reverse.1 hfind)).symm

/-- A key is held at a time iff it was found, and its release after the latest find has not come. -/
theorem lt_releaseOf_iff {now : τ} (hnow : h.lt now h.start = false) (found : List (Key × τ))
    (k : Key) :
    h.lt now (releaseOf h found k) = true ↔
      ∃ earlier time later, found = earlier ++ (k, time) :: later ∧
        (∀ find ∈ later, find.1 ≠ k) ∧ h.lt now (h.release time) = true := by
  constructor
  · intro hlt
    unfold releaseOf at hlt
    split at hlt
    · exact absurd (hlt.symm.trans hnow) (by decide)
    · next time hlast =>
      obtain ⟨earlier, later, hsplit, hlater⟩ := lookup_reverse_eq_some_iff.1 hlast
      exact ⟨earlier, time, later, hsplit, hlater, hlt⟩
  · rintro ⟨earlier, time, later, hsplit, hlater, hlt⟩
    rw [releaseOf, lookup_reverse_eq_some_iff.2 ⟨earlier, later, hsplit, hlater⟩]
    exact hlt

/-- The releases are those of the latest finds, the changes of every key alternate, and a key was last
reported as down iff the number of its changes is odd. -/
structure Kept (h : HoldScale τ) (found : List (Key × τ)) (passed : List (Key × Bool))
    (s : Handover τ) : Prop where
  deadline : ∀ k, s.typed.held.deadline.get k = releaseOf h found k
  alternate : ∀ k, Alternates (changesOf k passed)
  reported : ∀ k, s.typed.held.reported.get k = true ↔ (changesOf k passed).length % 2 = 1
  polling : ∀ now, s.polling = some now → h.lt now h.start = false

theorem kept_new (h : HoldScale τ) (m : Keymap) : (new h m).Kept h [] [] where
  deadline k := Vector.getElem_replicate _
  alternate k := alternates_nil
  reported k := by
    show (Vector.replicate 16 false).get k = true ↔ _
    rw [show (Vector.replicate 16 false).get k = false from Vector.getElem_replicate _]
    simp [changesOf]
  polling now hp := by cases hp

/-- A turn that neither finds a key nor passes a change on keeps the records. -/
theorem Kept.of_same {found : List (Key × τ)} {passed : List (Key × Bool)} {s' : Handover τ}
    (hk : s.Kept h found passed) (hheld : s'.typed.held = s.typed.held)
    (hpolling : ∀ now, s'.polling = some now → h.lt now h.start = false) :
    s'.Kept h (found ++ []) (passed ++ []) where
  deadline k := by rw [hheld, List.append_nil, hk.deadline]
  alternate k := by rw [List.append_nil]; exact hk.alternate k
  reported k := by rw [hheld, List.append_nil, hk.reported]
  polling := hpolling

theorem Kept.take_key {found : List (Key × τ)} {passed : List (Key × Bool)} {now : τ} {k : Key}
    {queue : List QueueItem} (hk : s.Kept h found passed) (hq : s.queue = .key k :: queue) :
    (s.take h now).Kept h (found ++ [(k, now)]) (passed ++ []) := by
  have htake : s.take h now = { s with
      typed := ⟨{ s.reader with queue },
        { s.typed.held with deadline := s.typed.held.deadline.set k.val (h.release now) k.lt }⟩
      drained := s.drained ++ [k] } := by
    simp only [take, hq]
    rfl
  rw [htake, List.append_nil]
  refine ⟨fun j => ?_, hk.alternate, hk.reported, fun time ht => hk.polling time ht⟩
  rw [releaseOf_concat, ← hk.deadline j]
  show (s.typed.held.deadline.set k.val (h.release now) k.lt).get j = _
  rw [Key.get_set]
  simp only [Fin.ext_iff]

theorem Kept.take_nil {found : List (Key × τ)} {passed : List (Key × Bool)} {now : τ}
    (hk : s.Kept h found passed) (hq : s.queue = []) :
    (s.take h now).Kept h (found ++ []) (passed ++ s.typed.held.changes h now) := by
  have htake : s.take h now = { s with
      typed := { s.typed with held := s.typed.held.report h now }
      polling := none
      answers := s.answers ++ [false] } := by
    simp only [take, hq]
  rw [htake, List.append_nil]
  refine ⟨fun k => ?_, fun k => ?_, fun k => ?_, fun now hp => ?_⟩
  · dsimp only
    rw [deadline_report]
    exact hk.deadline k
  · rw [changesOf_append, changesOf_changes]
    split
    · rw [List.append_nil]
      exact hk.alternate k
    · next hne =>
      refine (hk.alternate k).concat ?_
      have hparity := hk.reported k
      -- the key is now what it was not before
      rw [(Bool.eq_not_of_ne hne : _ = !_), Bool.not_eq_true', ← Bool.not_eq_true, hparity]
      omega
  · show (s.typed.held.report h now).reported.get k = true ↔ _
    have hparity := hk.reported k
    rw [get_report, changesOf_append, changesOf_changes]
    split
    · next heq => rw [List.append_nil, heq, hparity]
    · next hne =>
      rw [(Bool.eq_not_of_ne hne : _ = !_), Bool.not_eq_true', ← Bool.not_eq_true, hparity,
        List.length_append, List.length_singleton]
      omega
  · cases hp

/-- What a turn does to the keys, the records tell. -/
theorem Kept.next {found : List (Key × τ)} {passed : List (Key × Bool)}
    (hk : s.Kept h found passed) {t : Turn τ} (hnow : ∀ now, t = .start now → h.lt now h.start = false) :
    (s.next h t).Kept h (found ++ s.foundIn t) (passed ++ s.passedIn h t) := by
  cases t with
  | read char =>
    rw [Handover.next]
    split <;> exact hk.of_same rfl hk.polling
  | settle => exact hk.of_same rfl hk.polling
  | start now =>
    rw [Handover.next]
    split
    · exact hk.of_same rfl hk.polling
    · refine hk.of_same rfl fun time ht => ?_
      cases ht
      exact hnow now rfl
  | take =>
    cases hp : s.polling with
    | none =>
      simp only [Handover.next, foundIn, passedIn, hp]
      exact hk.of_same rfl hk.polling
    | some now =>
      cases hq : s.queue with
      | nil =>
        simp only [Handover.next, foundIn, passedIn, hp, hq]
        exact hk.take_nil hq
      | cons item queue =>
        cases item with
        | key k =>
          simp only [Handover.next, foundIn, passedIn, hp, hq]
          exact hk.take_key hq
        | quit =>
          simp only [Handover.next, foundIn, passedIn, hp, hq]
          refine hk.of_same ?_ ?_
          · simp only [take, hq]
          · simp only [take, hq, reduceCtorEq, false_implies, implies_true]

theorem kept_run {found : List (Key × τ)} {passed : List (Key × Bool)} (hk : s.Kept h found passed)
    {turns : List (Turn τ)} (hnow : ∀ now, .start now ∈ turns → h.lt now h.start = false) :
    (run h s turns).Kept h (found ++ s.found h turns) (passed ++ s.passed h turns) := by
  induction turns generalizing s found passed with
  | nil =>
    rw [Handover.found, Handover.passed, record, record, List.append_nil, List.append_nil]
    exact hk
  | cons t ts ih =>
    have hnext := hk.next (t := t) fun now ht => hnow now (ht ▸ List.mem_cons_self)
    have hrest := ih hnext fun now ht => hnow now (List.mem_cons_of_mem _ ht)
    rw [List.append_assoc, List.append_assoc] at hrest
    exact hrest

/-- A keypad that starts clear and gets the changes passed on shows the keys that were reported. -/
theorem Kept.keypad {found : List (Key × τ)} {passed : List (Key × Bool)}
    (hk : s.Kept h found passed) :
    ∃ keypad, Keypad.allUp.press (Controls.asKeys passed) = .ok keypad ∧
      ∀ k, keypad.down.get k = s.typed.held.reported.get k := by
  obtain ⟨keypad, hpress, hget⟩ := press_asKeys .allUp passed
  refine ⟨keypad, hpress, fun k => ?_⟩
  have hup : Keypad.allUp.down.get k = false := Vector.getElem_replicate _
  rw [hget k, hup, Bool.eq_iff_iff, (hk.alternate k).getLast?_getD, hk.reported k]

/-- A turn takes the key that it is recorded to find, and no other. -/
theorem drained_next (t : Turn τ) :
    (s.next h t).drained = s.drained ++ (s.foundIn t).map Prod.fst := by
  cases t with
  | read char =>
    rw [Handover.next]
    split <;> exact (List.append_nil _).symm
  | settle => exact (List.append_nil _).symm
  | start now =>
    rw [Handover.next]
    split <;> exact (List.append_nil _).symm
  | take =>
    cases hp : s.polling with
    | none => simp [Handover.next, foundIn, hp]
    | some now =>
      cases hq : s.queue with
      | nil => simp [Handover.next, take, foundIn, hp, hq]
      | cons item queue => cases item <;> simp [Handover.next, take, foundIn, hp, hq]

theorem drained_run (turns : List (Turn τ)) :
    (run h s turns).drained = s.drained ++ (s.found h turns).map Prod.fst := by
  induction turns generalizing s with
  | nil => exact (List.append_nil _).symm
  | cons t ts ih =>
    show (run h (s.next h t) ts).drained =
      s.drained ++ (s.foundIn t ++ (s.next h t).found h ts).map Prod.fst
    rw [ih, drained_next, List.map_append, List.append_assoc]

/-! ### Answers of polls -/

/-- Only a turn that ends a poll without a request to quit passes changes on. -/
theorem answers_next (h : HoldScale τ) (s : Handover τ) (t : Turn τ) :
    ∃ new, (s.next h t).answers = s.answers ++ new ∧ (false ∉ new → s.passedIn h t = []) := by
  cases t with
  | read char =>
    refine ⟨[], ?_, fun _ => rfl⟩
    rw [Handover.next, List.append_nil]
    split <;> rfl
  | settle => exact ⟨[], (List.append_nil _).symm, fun _ => rfl⟩
  | start now =>
    refine ⟨[], ?_, fun _ => rfl⟩
    rw [Handover.next, List.append_nil]
    split <;> rfl
  | take =>
    cases hp : s.polling with
    | none => exact ⟨[], by simp [Handover.next, hp], by simp [passedIn, hp]⟩
    | some now =>
      cases hq : s.queue with
      | nil => exact ⟨[false], by simp [Handover.next, take, hp, hq], by simp⟩
      | cons item queue =>
        cases item with
        | key k => exact ⟨[], by simp [Handover.next, take, hp, hq], by simp [passedIn, hp, hq]⟩
        | quit => exact ⟨[true], by simp [Handover.next, take, hp, hq], by simp [passedIn, hp, hq]⟩

theorem answers_run (ts : List (Turn τ)) :
    ∃ new, (run h s ts).answers = s.answers ++ new ∧ (false ∉ new → s.passed h ts = []) := by
  induction ts generalizing s with
  | nil => exact ⟨[], (List.append_nil _).symm, fun _ => rfl⟩
  | cons t ts ih =>
    obtain ⟨new, hnew, hnone⟩ := answers_next h s t
    obtain ⟨more, hmore, hrest⟩ := ih (s := s.next h t)
    refine ⟨new ++ more, ?_, fun hfalse => ?_⟩
    · rw [run_cons, hmore, hnew, List.append_assoc]
    · rw [List.mem_append, not_or] at hfalse
      rw [Handover.passed, record, hnone hfalse.1]
      exact hrest hfalse.2

theorem queue_of_answer {now : τ} (hp : s.polling = some now)
    (hend : (s.next h .take).answers = s.answers ++ [false]) : s.queue = [] := by
  cases hq : s.queue with
  | nil => rfl
  | cons item queue => cases item <;> simp [Handover.next, take, hp, hq] at hend

theorem reported_of_finish {now : τ} (hp : s.polling = some now) (hq : s.queue = []) (k : Key) :
    (s.next h .take).typed.held.reported.get k = s.typed.held.isDown h now k := by
  simp only [Handover.next, take, hp, hq]
  exact get_report h now s.typed.held k

/-! ### Polls of a session -/

theorem record_append {α : Type} (note : Handover τ → Turn τ → List α) (ts us : List (Turn τ)) :
    record h note s (ts ++ us) = record h note s ts ++ record h note (run h s ts) us := by
  induction ts generalizing s with
  | nil => rfl
  | cons t ts ih => rw [List.cons_append, record, record, ih, run_cons, List.append_assoc]

/-- Only a turn of the polling side passes changes on. -/
theorem passed_of_no_take {turns : List (Turn τ)} (hturns : .take ∉ turns) :
    s.passed h turns = [] := by
  induction turns generalizing s with
  | nil => rfl
  | cons t ts ih =>
    rw [List.mem_cons, not_or] at hturns
    have hnone : s.passedIn h t = [] := by
      cases t with
      | take => exact absurd rfl hturns.1
      | read | settle | start => rfl
    rw [Handover.passed, record, hnone]
    exact ih hturns.2

theorem passed_takes_of_idle (hp : s.polling = none) (n : Nat) :
    s.passed h (List.replicate n .take) = [] := by
  induction n with
  | zero => rfl
  | succ n ih =>
    have hidle : s.next h .take = s := by simp only [Handover.next, hp]
    have hnone : s.passedIn h .take = [] := by simp only [passedIn, hp]
    rw [List.replicate_succ, Handover.passed, record, hnone, hidle]
    exact ih

theorem passed_takes {now : τ} {queue : List QueueItem} (hp : s.polling = some now)
    (hq : s.queue = queue) :
    s.passed h (List.replicate (queue.length + 1) .take) = (s.typed.poll h now).2.1 := by
  induction queue generalizing s with
  | nil =>
    obtain ⟨⟨⟨m, _, running, waiting⟩, held⟩, _, drained, answers⟩ := s
    cases hq
    cases hp
    exact List.append_nil _
  | cons item queue ih =>
    obtain ⟨⟨⟨m, _, running, waiting⟩, held⟩, _, drained, answers⟩ := s
    cases hq
    cases hp
    rw [List.length_cons, List.replicate_succ, Handover.passed, record]
    cases item with
    | quit => exact passed_takes_of_idle rfl _
    | key k => exact ih rfl rfl

/-- A poll under way ends with turns: the keys it leaves, the changes it passes on and its answer. -/
structure Ends (h : HoldScale τ) (s : Handover τ) (turns : List (Turn τ))
    (poll : TypedKeys τ × List (Key × Bool) × Bool) : Prop where
  typed : (run h s turns).typed = poll.1
  passed : s.passed h turns = poll.2.1
  answers : (run h s turns).answers = s.answers ++ [poll.2.2]
  polling : (run h s turns).polling = none

theorem ends_takes {now : τ} (hp : s.polling = some now) :
    s.Ends h (List.replicate (s.queue.length + 1) .take) (s.typed.poll h now) := by
  obtain ⟨htyped, hanswers, hnone⟩ := run_takes (h := h) hp rfl
  exact ⟨htyped, passed_takes hp rfl, hanswers, hnone⟩

/-- A look that finds a key leaves the poll to the turns after it. -/
theorem Ends.of_key {now : τ} {k : Key} {queue : List QueueItem} {turns : List (Turn τ)}
    {poll : TypedKeys τ × List (Key × Bool) × Bool} (hp : s.polling = some now)
    (hq : s.queue = .key k :: queue) (he : (s.take h now).Ends h turns poll) :
    s.Ends h (.take :: turns) poll := by
  have hnext : s.next h .take = s.take h now := by rw [Handover.next, hp]
  have hnone : s.passedIn h .take = [] := by simp only [passedIn, hp, hq]
  have hsame : (s.take h now).answers = s.answers := by simp only [take, hq]
  refine ⟨?_, ?_, ?_, ?_⟩
  · rw [run_cons, hnext]
    exact he.typed
  · rw [Handover.passed, record, hnone, hnext]
    exact he.passed
  · rw [run_cons, hnext, he.answers, hsame]
  · rw [run_cons, hnext]
    exact he.polling

/-- The reader does nothing but read and settle. -/
theorem notMem_reader {t : Turn τ} (hread : ∀ char, t ≠ .read char) (hsettle : t ≠ .settle)
    (turns : List ReaderTurn) : t ∉ turns.flatMap turnsOf := by
  intro ht
  obtain ⟨turn, -, hmem⟩ := List.mem_flatMap.1 ht
  cases turn with
  | read chars =>
    obtain ⟨char, -, rfl⟩ := List.mem_map.1 hmem
    exact hread char rfl
  | settle => exact hsettle (List.mem_singleton.1 hmem)

/-- The reader may have its turns before those that end a poll. -/
theorem Ends.of_reader {turns : List ReaderTurn} {ts : List (Turn τ)}
    {poll : TypedKeys τ × List (Key × Bool) × Bool}
    (he : (s.withReader (s.reader.actAll turns)).Ends h ts poll) :
    s.Ends h (turns.flatMap turnsOf ++ ts) poll := by
  have hrun := run_actAll (h := h) (s := s) turns
  refine ⟨?_, ?_, ?_, ?_⟩
  · rw [run_append, hrun]
    exact he.typed
  · rw [Handover.passed, record_append, ← Handover.passed, hrun,
      passed_of_no_take (notMem_reader (t := .take) nofun nofun turns)]
    exact he.passed
  · rw [run_append, hrun]
    exact he.answers
  · rw [run_append, hrun]
    exact he.polling

/-- A look at the queue ends the poll, unless it finds a key, which leaves the poll to what follows. -/
theorem exists_turns_of_look {now : τ} (later : List (List ReaderTurn)) (hp : s.polling = some now)
    (hlater : ∀ {s : Handover τ}, s.polling = some now → ∃ turns, (∀ time, .start time ∉ turns) ∧
      s.Ends h turns (s.typed.pollAmong h now later).1) :
    ∃ turns, (∀ time, .start time ∉ turns) ∧
      s.Ends h turns (s.typed.pollAmong h now ([] :: later)).1 := by
  have hno (n : Nat) (time : τ) : Turn.start time ∉ List.replicate n .take := by simp
  have hqueue : (s.typed.reader.actAll []).queue = s.queue := rfl
  rw [TypedKeys.pollAmong, hqueue]
  cases hq : s.queue with
  | nil => exact ⟨_, hno _, ends_takes hp⟩
  | cons item queue =>
    cases item with
    | quit => exact ⟨_, hno _, ends_takes hp⟩
    | key k =>
      have htake : (s.take h now).typed =
          ⟨{ s.reader with queue }, (s.typed.held.drain h now [.key k]).1⟩ := by
        simp only [take, hq]
      have hpolling : (s.take h now).polling = some now := by simp only [take, hq, hp]
      obtain ⟨turns, hstart, hends⟩ := hlater hpolling
      rw [htake] at hends
      refine ⟨.take :: turns, fun time => ?_, hends.of_key hp hq⟩
      rw [List.mem_cons, not_or]
      exact ⟨nofun, hstart time⟩

/-- A poll with turns of the reader before its looks is turns of the parties. -/
theorem exists_turns_of_pollAmong {now : τ} (typing : List (List ReaderTurn))
    (hp : s.polling = some now) :
    ∃ turns, (∀ time, .start time ∉ turns) ∧ s.Ends h turns (s.typed.pollAmong h now typing).1 := by
  induction typing generalizing s with
  | nil => exact ⟨_, fun time => by simp, ends_takes hp⟩
  | cons reading later ih =>
    obtain ⟨turns, hstart, hends⟩ :=
      exists_turns_of_look (s := s.withReader (s.reader.actAll reading)) later hp ih
    refine ⟨_, fun time => ?_, hends.of_reader⟩
    rw [List.mem_append, not_or]
    exact ⟨notMem_reader (t := .start time) nofun nofun reading, hstart time⟩

theorem time_eq (session : Session) : ∃ later,
    InSession.time session = .ok (session.times.headD 0) later ∧ later.typing = session.typing := by
  obtain ⟨calls, printed, events, typing, times, terminal⟩ := session
  match times with
  | [] => exact ⟨_, rfl, rfl⟩
  | [t] => exact ⟨_, rfl, rfl⟩
  | t :: t' :: times => exact ⟨_, rfl, rfl⟩

theorem poll_typed (k : TypedKeys Float) (host : Host) (session : Session) : ∃ later,
    let poll := (k.pollAmong .seconds (session.times.headD 0) session.typing).1
    (Controls.typed k).poll host session =
      .ok (.typed poll.1, ⟨Controls.asKeys poll.2.1, poll.2.2⟩) later := by
  obtain ⟨later, htime, htyping⟩ := time_eq session
  refine ⟨{ later with
    typing := (k.pollAmong .seconds (session.times.headD 0) session.typing).2 }, ?_⟩
  rw [Controls.poll, bind_of_ok htime, ← htyping]
  rfl

/-- A poll of typed keys in a session is turns of the parties. -/
theorem exists_turns_of_poll {s : Handover Float} (hp : s.polling = none) (host : Host)
    (session : Session) : ∃ turns quit later, (∀ time, .start time ∉ turns) ∧
      let poll := .start (session.times.headD 0) :: turns
      (Controls.typed s.typed).poll host session = .ok (.typed (run .seconds s poll).typed,
        ⟨Controls.asKeys (s.passed .seconds poll), quit⟩) later ∧
      (run .seconds s poll).answers = s.answers ++ [quit] ∧
      (run .seconds s poll).polling = none := by
  let now := session.times.headD 0
  have hstart := next_start (h := .seconds) now hp
  obtain ⟨turns, hno, hends⟩ := exists_turns_of_pollAmong (h := .seconds)
    (s := { s with polling := some now }) session.typing rfl
  obtain ⟨later, hpoll⟩ := poll_typed s.typed host session
  let answer := (s.typed.pollAmong .seconds now session.typing).1
  have hpassed : s.passed .seconds (.start now :: turns) = answer.2.1 := by
    rw [Handover.passed, record, hstart]
    exact hends.passed
  refine ⟨turns, answer.2.2, later, hno, ?_, ?_, ?_⟩
  · rw [run_cons, hstart, hends.typed, hpassed]
    exact hpoll
  · rw [run_cons, hstart]
    exact hends.answers
  · rw [run_cons, hstart]
    exact hends.polling

/-- Whatever turns the parties took, with no poll before the start of time, a keypad that starts clear
and gets the changes passed on shows the keys reported: those within 0.2 of their latest find. -/
theorem keypad_in_step (m : Keymap) (turns : List (Turn Float))
    (hnow : ∀ now, .start now ∈ turns → ¬ now < 0) :
    let start := new .seconds m
    let s := run .seconds start turns
    (∃ keypad, Keypad.allUp.press (Controls.asKeys (start.passed .seconds turns)) = .ok keypad ∧
      ∀ k, keypad.down.get k = s.typed.held.reported.get k) ∧
    (∀ change ∈ Controls.asKeys (start.passed .seconds turns), 0 ≤ change.1 ∧ change.1 < 16) ∧
    (∀ k, Alternates (changesOf k (start.passed .seconds turns))) ∧
    s.drained = (start.found .seconds turns).map Prod.fst ∧
    (∀ ts new, (run .seconds s ts).answers = s.answers ++ new → false ∉ new →
      s.passed .seconds ts = []) ∧
    (∀ now, s.polling = some now → (s.next .seconds .take).answers = s.answers ++ [false] →
      ∃ keypad,
        Keypad.allUp.press (Controls.asKeys (start.passed .seconds (turns ++ [.take]))) = .ok keypad ∧
        ∀ k, keypad.down.get k = true ↔
          ∃ earlier time later, start.found .seconds turns = earlier ++ (k, time) :: later ∧
            (∀ find ∈ later, find.1 ≠ k) ∧ now < time + 0.2) ∧
    (s.polling = none → ∀ host session, ∃ ts quit later, (∀ time, .start time ∉ ts) ∧
      let poll := .start (session.times.headD 0) :: ts
      (Controls.typed s.typed).poll host session = .ok (.typed (run .seconds s poll).typed,
        ⟨Controls.asKeys (s.passed .seconds poll), quit⟩) later ∧
      (run .seconds s poll).answers = s.answers ++ [quit] ∧
      (run .seconds s poll).polling = none) := by
  intro start s
  have hstart : ∀ now, .start now ∈ turns →
      HoldScale.seconds.lt now HoldScale.seconds.start = false :=
    fun now hmem => decide_eq_false (hnow now hmem)
  have hk : s.Kept .seconds (start.found .seconds turns) (start.passed .seconds turns) :=
    kept_run (kept_new .seconds m) hstart
  refine ⟨hk.keypad, fun change => bounds_of_mem_asKeys, hk.alternate, drained_run turns, ?_, ?_,
    exists_turns_of_poll⟩
  · intro ts new hanswers hfalse
    obtain ⟨new', hnew, hnone⟩ := answers_run (h := .seconds) (s := s) ts
    exact hnone (List.append_cancel_left (hanswers.symm.trans hnew) ▸ hfalse)
  · intro now hp hend
    have hq := queue_of_answer hp hend
    have hstart' : ∀ time, .start time ∈ turns ++ [.take] →
        HoldScale.seconds.lt time HoldScale.seconds.start = false := by
      intro time hmem
      rcases List.mem_append.1 hmem with hmem | hmem
      · exact hstart time hmem
      · simp at hmem
    obtain ⟨keypad, hpress, hget⟩ := (kept_run (kept_new .seconds m) hstart').keypad
    refine ⟨keypad, hpress, fun k => ?_⟩
    have hrun : run .seconds start (turns ++ [.take]) = s.next .seconds .take :=
      run_append turns [.take]
    rw [hget k, hrun, reported_of_finish hp hq, HeldKeys.isDown, hk.deadline,
      lt_releaseOf_iff (hk.polling now hp) _ k]
    simp only [HoldScale.seconds, decide_eq_true_eq]

/-- The letter for key 0, found at 1 and released by 1.2: a poll at 1.25 passes on that the key is up. -/
theorem keypad_in_step_of_tap :
    let start := new .seconds (Keymap.ofCodes [120])
    let turns : List (Turn Float) := [.read 120, .start 1, .take, .take, .start 1.25]
    (∀ now, .start now ∈ turns → ¬ now < 0) ∧
      start.passed .seconds turns = [(0, true)] ∧
      start.passed .seconds (turns ++ [.take]) = [(0, true), (0, false)] ∧
      (∀ k, Alternates (changesOf k (start.passed .seconds turns))) ∧
      ∃ keypad,
        Keypad.allUp.press (Controls.asKeys (start.passed .seconds (turns ++ [.take]))) = .ok keypad ∧
        ∀ k, keypad.down.get k = true ↔
          ∃ earlier time later, start.found .seconds turns = earlier ++ (k, time) :: later ∧
            (∀ find ∈ later, find.1 ≠ k) ∧ 1.25 < time + 0.2 := by
  intro start turns
  have hnow : ∀ now, .start now ∈ turns → ¬ now < 0 := by
    intro now hmem
    simp only [turns, List.mem_cons, List.not_mem_nil, or_false, reduceCtorEq, false_or,
      Turn.start.injEq] at hmem
    rcases hmem with rfl | rfl
    · decide +kernel
    · decide +kernel
  obtain ⟨-, -, halternate, -, -, hfinish, -⟩ := keypad_in_step (Keymap.ofCodes [120]) turns hnow
  exact ⟨hnow, by decide +kernel, by decide +kernel, halternate,
    hfinish 1.25 (by decide +kernel) (by decide +kernel)⟩

end Handover

end Chip8
