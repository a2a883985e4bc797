import Mathlib.Data.List.Forall2

/-!
# Reading entry by entry

A reader of single entries reads a list iff it reads every entry (`mapM_eq_ok_iff`, `mapM_eq_some_iff`),
and stops at the first that it does not (`mapM_eq_error_iff`).  What is said of an entry and of all those
before it is found at the front of a list or behind it (`exists_split_cons`).
-/

namespace Chip8

variable {α β ε : Type}

theorem exists_split_cons {P Q : α → Prop} (x : α) (xs : List α) :
    (∃ before y rest, x :: xs = before ++ y :: rest ∧ (∀ b ∈ before, P b) ∧ Q y) ↔
      Q x ∨ P x ∧ ∃ before y rest, xs = before ++ y :: rest ∧ (∀ b ∈ before, P b) ∧ Q y := by
  constructor
  · rintro ⟨before, y, rest, hsplit, hbefore, hy⟩
    cases before with
    | nil =>
      cases hsplit
      exact Or.inl hy
    | cons b before =>
      cases hsplit
      obtain ⟨hx, hbefore⟩ := List.forall_mem_cons.1 hbefore
      exact Or.inr ⟨hx, before, y, rest, rfl, hbefore, hy⟩
  · rintro (hx | ⟨hx, before, y, rest, rfl, hbefore, hy⟩)
    · exact ⟨[], x, xs, rfl, by simp, hx⟩
    · exact ⟨x :: before, y, rest, rfl, List.forall_mem_cons.2 ⟨hx, hbefore⟩, hy⟩

theorem exists_of_forall₂ {R : α → β → Prop} {xs : List α} {ys : List β} (h : List.Forall₂ R xs ys) :
    ∀ x ∈ xs, ∃ y, R x y :=
  ((List.forall₂_and_left xs ys).1 (h.imp fun _ y hxy => ⟨⟨y, hxy⟩, hxy⟩)).1

/-- A list is read iff each of its entries is. -/
theorem mapM_eq_ok_iff (f : α → Except ε β) (xs : List α) (ys : List β) :
    xs.mapM f = .ok ys ↔ List.Forall₂ (fun x y => f x = .ok y) xs ys := by
  induction xs generalizing ys with
  | nil =>
    rw [List.mapM_nil, List.forall₂_nil_left_iff]
    exact ⟨fun h => (Except.ok.inj h).symm, fun h => congrArg Except.ok h.symm⟩
  | cons x xs ih =>
    rw [List.mapM_cons, List.forall₂_cons_left_iff]
    cases hx : f x with
    | error e => simp [bind, Except.bind]
    | ok y =>
      cases hxs : xs.mapM f with
      | error e => simp [bind, Except.bind, ← ih, hxs]
      | ok rest => simp [bind, Except.bind, pure, Except.pure, ← ih, hxs, eq_comm]

/-- Reading stops at the first entry that fails. -/
theorem mapM_eq_error_iff (f : α → Except ε β) (xs : List α) (e : ε) :
    xs.mapM f = .error e ↔ ∃ before x rest, xs = before ++ x :: rest ∧
      (∀ b ∈ before, ∃ y, f b = .ok y) ∧ f x = .error e := by
  induction xs with
  | nil => simp [pure, Except.pure]
  | cons x xs ih =>
    rw [exists_split_cons (Q := fun x => f x = .error e), ← ih, List.mapM_cons]
    cases hx : f x with
    | error e' => simp [bind, Except.bind]
    | ok y => cases hxs : xs.mapM f <;> simp [bind, Except.bind, pure, Except.pure]

/-- A list is read iff each of its entries is, for readers that give no reason. -/
theorem mapM_eq_some_iff (f : α → Option β) (xs : List α) (ys : List β) :
    xs.mapM f = some ys ↔ List.Forall₂ (fun x y => f x = some y) xs ys := by
  induction xs generalizing ys with
  | nil => simp [List.forall₂_nil_left_iff, eq_comm]
  | cons x xs ih =>
    rw [List.mapM_cons, List.forall₂_cons_left_iff]
    cases hx : f x with
    | none => simp
    | some y =>
      cases hxs : xs.mapM f with
      | none => simp [← ih, hxs]
      | some rest => simp [← ih, hxs, eq_comm]

/-- A list is read iff each of its entries is, and the results are those of the entries. -/
theorem mapM_eq_some_filterMap_iff (f : α → Option β) (xs : List α) (ys : List β) :
    xs.mapM f = some ys ↔ (∀ x ∈ xs, (f x).isSome) ∧ ys = xs.filterMap f := by
  rw [mapM_eq_some_iff]
  constructor
  · intro h
    induction h with
    | nil => simp
    | cons hx _ ih =>
      obtain ⟨hall, rfl⟩ := ih
      simpa [hx] using hall
  · rintro ⟨hall, rfl⟩
    induction xs with
    | nil => exact .nil
    | cons x xs ih =>
      obtain ⟨hx, hxs⟩ := List.forall_mem_cons.1 hall
      obtain ⟨y, hy⟩ := Option.isSome_iff_exists.1 hx
      rw [List.filterMap_cons_some hy]
      exact .cons hy (ih hxs)

theorem mapM_eq_none_iff (f : α → Option β) (xs : List α) :
    xs.mapM f = none ↔ ∃ x ∈ xs, f x = none := by
  induction xs with
  | nil => simp
  | cons x xs ih =>
    rw [List.mapM_cons]
    cases hx : f x with
    | none => simp [hx]
    | some y => cases hxs : xs.mapM f <;> simp [hx, ← ih, hxs]

end Chip8
