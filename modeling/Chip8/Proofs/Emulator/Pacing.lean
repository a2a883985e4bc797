import Chip8.Emulator.Script
import Chip8.Proofs.Emulator.Rounds
import Mathlib.Algebra.Order.Floor.Ring
import Mathlib.Data.Rat.Floor
import Mathlib.Tactic.Linarith

/-!
# Keeping time

What the clock decides about a run can be said without the run: the readings that begin rounds, the time
each round has to pay out, the frames it pays out and the time it leaves (`Pace.beats`).  On exact
rationals, and by a clock that never goes back, these rounds are `Steady`: time is neither lost nor paid
out twice, but for what is not made up for; no round has more than fifteen frames, and only the first
can have none.  The rounds of a run are the first of these (`Emulation.rounds_keep_time`).
-/

namespace Chip8

/-! ### Paying time out -/

/-- What the clock decides about a round. -/
structure Beat (τ : Type) where
  /-- The reading that begins the round. -/
  start : τ
  /-- The time to be paid out. -/
  time : τ
  frames : Nat
  /-- The time that is not paid out. -/
  left : τ
deriving DecidableEq

namespace Pace

variable {τ : Type} (t : TimeScale τ)

/-- The round that a reading begins, if it begins one. -/
def beat? (now : τ) : Pace τ → Option (Beat τ)
  | .ready last owed =>
    let time := t.add owed (t.stretch last now)
    some ⟨now, time, (t.framesIn time).1, (t.framesIn time).2⟩
  | _ => none

/-- The rounds that readings begin. -/
def beats : Pace τ → List τ → List (Beat τ)
  | _, [] => []
  | pace, now :: clock => (pace.beat? t now).toList ++ beats (pace.after t now) clock

theorem map_frames_beats (pace : Pace τ) (clock : List τ) :
    (pace.beats t clock).map Beat.frames = pace.frameCounts t clock := by
  induction clock generalizing pace with
  | nil => rfl
  | cons now clock ih =>
    rw [beats, frameCounts, List.map_append, ih]
    cases pace <;> rfl

theorem mem_of_mem_starts {pace : Pace τ} {clock : List τ} {now : τ} (h : now ∈ pace.starts t clock) :
    now ∈ clock := by
  induction clock generalizing pace with
  | nil => exact h
  | cons first clock ih =>
    rw [starts, List.mem_append] at h
    rcases h with h | h
    · cases pace <;> simp [start?] at h
      exact h ▸ List.mem_cons_self
    · exact List.mem_cons_of_mem _ (ih h)

theorem map_start_beats (pace : Pace τ) (clock : List τ) :
    (pace.beats t clock).map Beat.start = pace.starts t clock := by
  induction clock generalizing pace with
  | nil => rfl
  | cons now clock ih =>
    rw [beats, starts, List.map_append, ih]
    cases pace <;> rfl

end Pace

namespace TimeScale

theorem stretch_exact (last now : ℚ) : exact.stretch last now = min (now - last) (1 / 4) := by
  show (if decide ((1 / 4 : ℚ) < now - last) = true then (1 / 4 : ℚ) else now - last) = _
  by_cases h : (1 / 4 : ℚ) < now - last
  · rw [if_pos (decide_eq_true h), min_eq_right h.le]
  · rw [if_neg (by simpa using h), min_eq_left (not_lt.1 h)]

/-- A loop that pays out frames one by one ends by itself when less than a frame is left. -/
theorem payOut_exact {n most : Nat} {left time : ℚ} (h₀ : 0 ≤ left) (h : left < 1 / 60)
    (htime : (n : ℚ) / 60 + left = time) (hmost : n ≤ most) :
    exact.payOut most time = (n, left) := by
  induction n generalizing most time with
  | zero =>
    have hleft : time = left := by rw [← htime]; norm_num
    subst hleft
    cases most with
    | zero => rfl
    | succ most =>
      have hend : exact.le exact.frame time = false := by simpa [exact] using h
      rw [payOut, hend]
      rfl
  | succ n ih =>
    obtain ⟨most, rfl⟩ : ∃ m, most = m + 1 := ⟨most - 1, by omega⟩
    have hgo : exact.le exact.frame time = true := by
      have : (1 : ℚ) / 60 ≤ time := by
        rw [← htime]
        push_cast
        have : (0 : ℚ) ≤ n := Nat.cast_nonneg n
        linarith
      simpa [exact] using this
    have hrest : exact.payOut most (exact.sub time exact.frame) = (n, left) := by
      refine ih ?_ (by omega)
      show (n : ℚ) / 60 + left = time - 1 / 60
      rw [← htime]
      push_cast
      ring
    rw [payOut, hgo, if_pos rfl, hrest]

end TimeScale

/-- A round pays out whole frames until less than a frame is left, and a loop that goes on as long as a
frame is left ends there. -/
structure Beat.Pays (b : Beat ℚ) : Prop where
  nonneg : 0 ≤ b.left
  lt_frame : b.left < 1 / 60
  time_eq : (b.frames : ℚ) / 60 + b.left = b.time
  ends : ∀ most, b.frames ≤ most → TimeScale.exact.payOut most b.time = (b.frames, b.left)

/-- The whole frames in a stretch of time are paid out. -/
theorem pays_framesIn (start : ℚ) {time : ℚ} (h : 0 ≤ time) :
    (⟨start, time, (TimeScale.exact.framesIn time).1, (TimeScale.exact.framesIn time).2⟩ :
      Beat ℚ).Pays := by
  let n := ⌊time * 60⌋.toNat
  have hfloor : 0 ≤ ⌊time * 60⌋ := Int.floor_nonneg.2 (by linarith)
  have hn : (n : ℚ) = ⌊time * 60⌋ := by
    show ((⌊time * 60⌋.toNat : ℕ) : ℚ) = _
    exact_mod_cast congrArg (Int.cast : ℤ → ℚ) (Int.toNat_of_nonneg hfloor)
  have hle : (n : ℚ) ≤ time * 60 := hn ▸ Int.floor_le (time * 60)
  have hlt : time * 60 < n + 1 := hn ▸ Int.lt_floor_add_one (time * 60)
  have hleft : 0 ≤ time - n / 60 := by linarith
  have hleft' : time - n / 60 < 1 / 60 := by linarith
  have htime : (n : ℚ) / 60 + (time - n / 60) = time := by ring
  have hpaid : TimeScale.exact.framesIn time = (n, time - n / 60) :=
    TimeScale.payOut_exact hleft hleft' htime (Nat.le_succ n)
  rw [hpaid]
  exact ⟨hleft, hleft', htime, fun most hmost => TimeScale.payOut_exact hleft hleft' htime hmost⟩

/-! ### Rounds one after another -/

/-- The time that is made up for between each reading and the one before, where `last` comes first. -/
def madeUp : ℚ → List ℚ → List ℚ
  | _, [] => []
  | last, now :: readings => min (now - last) (1 / 4) :: madeUp now readings

/-- Rounds that follow on the reading `last` with the time `owed` left over: each gets what was left and
what is made up for, and comes no earlier than a frame after the reading before, less what was left. -/
inductive Steady : ℚ → ℚ → List (Beat ℚ) → Prop
  | nil {last owed : ℚ} : Steady last owed []
  | cons {last owed : ℚ} {b : Beat ℚ} {beats : List (Beat ℚ)}
      (time_eq : b.time = owed + min (b.start - last) (1 / 4)) (pays : b.Pays)
      (waits : ∀ next ∈ beats.head?, b.start + 1 / 60 - b.left ≤ next.start)
      (rest : Steady b.start b.left beats) : Steady last owed (b :: beats)

/-- The rounds that a clock gives which never goes back are steady, also those after a wait, the first of
which begins no earlier than its target. -/
theorem steady_beats {clock : List ℚ} (hclock : clock.Pairwise (· ≤ ·)) {last owed : ℚ}
    (howed : 0 ≤ owed) (hlast : ∀ now ∈ clock, last ≤ now) :
    Steady last owed (Pace.beats .exact (.ready last owed) clock) ∧
      ∀ target, Steady last owed (Pace.beats .exact (.waiting target last owed) clock) ∧
        ∀ b ∈ (Pace.beats .exact (.waiting target last owed) clock).head?, target ≤ b.start := by
  -- A reading leads from a round to a wait and from a wait on or to a round, so each half needs the other.
  induction clock generalizing last owed with
  | nil => exact ⟨.nil, fun _ => ⟨.nil, nofun⟩⟩
  | cons now clock ih =>
    obtain ⟨hnow, hclock⟩ := List.pairwise_cons.1 hclock
    obtain ⟨hlastnow, hlast⟩ := List.forall_mem_cons.1 hlast
    constructor
    · have htime : TimeScale.exact.add owed (TimeScale.exact.stretch last now) =
          owed + min (now - last) (1 / 4) := by
        rw [TimeScale.stretch_exact]
        rfl
      have hpays := pays_framesIn now
        (htime ▸ add_nonneg howed (le_min (by linarith) (by norm_num)))
      obtain ⟨hsteady, hwait⟩ := (ih hclock hpays.nonneg hnow).2 _
      exact .cons htime hpays hwait hsteady
    · intro target
      obtain ⟨hready, hwaiting⟩ := ih hclock howed hlast
      show Steady last owed (Pace.beats .exact (if decide (now < target) then _ else _) clock) ∧
        ∀ b ∈ (Pace.beats .exact (if decide (now < target) then _ else _) clock).head?, _
      by_cases htarget : now < target
      · rw [if_pos (decide_eq_true htarget)]
        exact hwaiting target
      · rw [if_neg (by simpa using htarget)]
        refine ⟨hready, fun b hb => ?_⟩
        -- the reading that ends the wait is not the one that begins the round
        cases clock with
        | nil => cases hb
        | cons next clock =>
          cases hb
          exact (not_lt.1 htarget).trans (hnow next List.mem_cons_self)

/-- The rounds of a clock that never goes back are steady from its first reading on, with no time owed.
-/
theorem steady_starting {clock : List ℚ} (hclock : clock.Pairwise (· ≤ ·)) :
    Steady (clock.headD 0) 0 (Pace.beats .exact .starting clock) := by
  cases clock with
  | nil => exact .nil
  | cons first clock =>
    obtain ⟨hfirst, hclock⟩ := List.pairwise_cons.1 hclock
    exact (steady_beats hclock le_rfl hfirst).1

namespace Steady

variable {last owed : ℚ} {beats : List (Beat ℚ)}

theorem pays_of_mem (h : Steady last owed beats) {b : Beat ℚ} (hb : b ∈ beats) : b.Pays := by
  induction h with
  | nil => cases hb
  | cons _ pays _ _ ih =>
    rcases List.mem_cons.1 hb with rfl | hb
    · exact pays
    · exact ih hb

/-- What is paid out and what is left is what there was at first and what was made up for since. -/
theorem conserves (h : Steady last owed beats) {k : Nat} {b : Beat ℚ} (hb : beats[k]? = some b) :
    (((beats.map Beat.frames).take (k + 1)).sum : ℚ) / 60 + b.left =
      owed + ((madeUp last (beats.map Beat.start)).take (k + 1)).sum := by
  induction h generalizing k with
  | nil => cases hb
  | @cons last owed first beats time_eq pays _ _ ih =>
    have hfirst := pays.time_eq
    rw [time_eq] at hfirst
    cases k with
    | zero =>
      cases hb
      simpa [madeUp] using hfirst
    | succ k =>
      have hrest := ih hb
      simp only [List.take_succ_cons, List.map_cons, List.sum_cons, madeUp, Nat.cast_add]
      linarith

/-- With less than a frame over, a round pays out at most fifteen frames. -/
theorem frames_le (h : Steady last owed beats) (howed : owed < 1 / 60) {b : Beat ℚ} (hb : b ∈ beats) :
    b.frames ≤ 15 := by
  induction h with
  | nil => cases hb
  | @cons last owed first beats time_eq pays _ _ ih =>
    rcases List.mem_cons.1 hb with rfl | hb
    · have hmost : min (b.start - last) (1 / 4) ≤ 1 / 4 := min_le_right _ _
      have htime := pays.time_eq
      have hleft := pays.nonneg
      have hframes : (b.frames : ℚ) < 16 := by linarith
      have : b.frames < 16 := by exact_mod_cast hframes
      omega
    · exact ih pays.lt_frame hb

/-- Every round after the first has waited for a frame. -/
theorem one_le_frames (h : Steady last owed beats) {k : Nat} {b : Beat ℚ}
    (hb : beats[k + 1]? = some b) : 1 ≤ b.frames := by
  induction h generalizing k with
  | nil => cases hb
  | @cons last owed first beats _ pays waits rest ih =>
    cases k with
    | succ k => exact ih hb
    | zero =>
      cases rest with
      | nil => cases hb
      | cons time_eq pays' _ _ =>
        cases hb
        have hwait : first.start + 1 / 60 - first.left ≤ b.start := waits b rfl
        have hmade : 1 / 60 - first.left ≤ min (b.start - first.start) (1 / 4) :=
          le_min (by linarith) (by linarith [pays.nonneg])
        have htime := pays'.time_eq
        have hleft := pays'.lt_frame
        have hframes : (0 : ℚ) < b.frames := by linarith
        exact_mod_cast hframes

end Steady

/-! ### Titles -/

/-- A report is due at a reading in a later second than every reading before that began a round, from the
second on from which the first is due. -/
theorem dues_exact {starts : List ℚ} (hstarts : ∀ now ∈ starts, 0 ≤ now) (next : ℤ) {k : Nat} {now : ℚ}
    {due : Bool} (hnow : starts[k]? = some now)
    (hdue : (TimeScale.exact.dues next starts)[k]? = some due) :
    due = true ↔ next ≤ ⌊now⌋ ∧ ∀ j < k, ∀ earlier ∈ starts[j]?, ⌊earlier⌋ < ⌊now⌋ := by
  induction starts generalizing next k with
  | nil => cases hnow
  | cons first starts ih =>
    obtain ⟨hfirst, hstarts⟩ := List.forall_mem_cons.1 hstarts
    have hle (x : ℚ) : TimeScale.exact.le next x = decide (next ≤ ⌊x⌋) := by
      show decide ((next : ℚ) ≤ x) = _
      rw [decide_eq_decide, Int.le_floor]
    have hsecond : TimeScale.exact.nextSecond first = ((⌊first⌋ + 1 : ℤ) : ℚ) := by
      show (((if first < 0 then first.ceil else first.floor) : ℤ) : ℚ) + 1 = _
      rw [if_neg (not_lt.2 hfirst), Int.cast_add, Int.cast_one]
      rfl
    have hrenewed : TimeScale.exact.renewed next first =
        ((if next ≤ ⌊first⌋ then ⌊first⌋ + 1 else next : ℤ) : ℚ) := by
      rw [TimeScale.renewed, hle, hsecond]
      by_cases h : next ≤ ⌊first⌋ <;> simp [h]
    cases k with
    | zero =>
      cases hnow
      cases hdue
      simp [hle]
    | succ k =>
      rw [TimeScale.dues, List.getElem?_cons_succ, hrenewed] at hdue
      have hearlier : (∀ j < k + 1, ∀ earlier ∈ (first :: starts)[j]?, ⌊earlier⌋ < ⌊now⌋) ↔
          ⌊first⌋ < ⌊now⌋ ∧ ∀ j < k, ∀ earlier ∈ starts[j]?, ⌊earlier⌋ < ⌊now⌋ := by
        constructor
        · exact fun h => ⟨h 0 (Nat.zero_lt_succ k) first rfl,
            fun j hj earlier hat => h (j + 1) (Nat.succ_lt_succ hj) earlier hat⟩
        · rintro ⟨hfirst, hrest⟩ (_ | j) hj earlier hat
          · cases hat
            exact hfirst
          · exact hrest j (Nat.lt_of_succ_lt_succ hj) earlier hat
      rw [ih hstarts _ hnow hdue, hearlier, ← and_assoc]
      refine and_congr_left fun _ => ?_
      split <;> omega

/-! ### The rounds of a run -/

section Prefix

variable {α : Type} {xs ys : List α} {k : Nat} {x : α}

theorem getElem?_of_prefix (h : xs <+: ys) (hx : xs[k]? = some x) : ys[k]? = some x := by
  obtain ⟨hk, rfl⟩ := List.getElem?_eq_some_iff.1 hx
  exact List.prefix_iff_getElem?.1 h k hk

theorem take_of_prefix (h : xs <+: ys) (hk : k ≤ xs.length) : ys.take k = xs.take k := by
  obtain ⟨more, rfl⟩ := h
  exact List.take_append_of_le_length hk

end Prefix

namespace Emulation

variable {ρ σ : Type} [NumberSource ρ] {fe : FrontEnd σ}

/-- The time that a round leaves is what the next reading goes on with, and the target of the wait. -/
theorem pace_of_takeReading {τ : Type} {t : TimeScale τ} {pace next : Pace τ} {now : τ} {b : Beat τ}
    {e e' : Emulator ρ τ σ} (hbeat : pace.beat? t now = some b)
    (hact : takeReading t fe pace now e = .ok (some next) e') :
    next = .waiting (t.sub (t.add b.start t.frame) b.left) b.start b.left := by
  have hcourse := course_takeReading t fe pace now (e := e) rfl
  rw [hact] at hcourse
  cases hcourse with
  | done performed _ =>
    obtain ⟨rounds, -, -, hnext⟩ := performed
    have hafter : next = pace.after t now := by
      split at hnext
      · cases hnext
      · exact Option.some.inj hnext
    cases pace <;> cases hbeat
    exact hafter

section Ending

variable {τ : Type} {t : TimeScale τ} {ops : Nat} {pace : Pace τ} {clock : List τ} {e : Emulator ρ τ σ}
  {rounds : List Round} {result : EStateM.Result Failure (Emulator ρ τ σ) Unit}

/-- The rounds of a run are as the clock decides. -/
theorem Ending.exists_beat (h : Ending t fe ops pace clock e rounds result) {k : Nat} {r : Round}
    (hr : rounds[k]? = some r) :
    ∃ b, (pace.beats t clock)[k]? = some b ∧ b.frames = r.frames ∧
      (t.dues e.nextReport ((pace.beats t clock).map Beat.start))[k]? = some r.titled := by
  have hframes : ((pace.beats t clock).map Beat.frames)[k]? = some r.frames := by
    rw [Pace.map_frames_beats]
    exact getElem?_of_prefix h.counts_prefix (by rw [List.getElem?_map, hr]; rfl)
  have htitled : (t.dues e.nextReport ((pace.beats t clock).map Beat.start))[k]? = some r.titled := by
    rw [Pace.map_start_beats]
    exact getElem?_of_prefix h.titles_prefix (by rw [List.getElem?_map, hr]; rfl)
  rw [List.getElem?_map] at hframes
  obtain ⟨b, hb, hrb⟩ := Option.map_eq_some_iff.1 hframes
  exact ⟨b, hb, hrb, htitled⟩

theorem Ending.take_frames (h : Ending t fe ops pace clock e rounds result) {k : Nat}
    (hk : k ≤ rounds.length) :
    ((pace.beats t clock).map Beat.frames).take k = (rounds.map Round.frames).take k := by
  rw [Pace.map_frames_beats]
  exact take_of_prefix h.counts_prefix (by rwa [List.length_map])

/-- By a front end that never runs out of readings itself, a run that does has all rounds they begin. -/
theorem Ending.counts_of_exhausted {e' : Emulator ρ τ σ}
    (h : Ending t fe ops pace clock e rounds (.error .clockExhausted e'))
    (hfe : ∀ i f event i' f', ¬Fails (ρ := ρ) fe i f event .clockExhausted i' f') :
    rounds.map Round.frames = pace.frameCounts t clock := by
  cases h with
  | exhausted _ counts => exact counts
  | failed _ _ _ stops =>
    obtain ⟨i, f, -, hfails⟩ := stops.fails
    exact absurd hfails (hfe _ _ _ _ _)

end Ending

/-- On exact rationals, and by a clock that never goes back, time is neither lost nor paid out twice:
each round has at most fifteen whole frames, and the first round of each second shows a title. -/
theorem rounds_keep_time {speed : Setting} {i : Interpreter ρ} {f : σ} {e : Emulator ρ ℚ σ}
    (hnew : setUp fe speed (Emulator.initial .exact i f) = .ok () e) {clock : List ℚ}
    (hclock : clock.Pairwise (· ≤ ·)) (hpositive : ∀ now ∈ clock, 0 ≤ now) :
    let beats := Pace.beats .exact .starting clock
    (∀ (pace next : Pace ℚ) (now : ℚ) (b : Beat ℚ) (e e' : Emulator ρ ℚ σ),
      pace.beat? .exact now = some b → takeReading .exact fe pace now e = .ok (some next) e' →
        next = .waiting (b.start + 1 / 60 - b.left) b.start b.left) ∧
    ∃ rounds, Ending .exact fe e.opsPerFrame .starting clock e rounds (run .exact fe clock e) ∧
      ∀ k r, rounds[k]? = some r → ∃ b, beats[k]? = some b ∧ r.frames = b.frames ∧
        (∀ most, b.frames ≤ most → TimeScale.exact.payOut most b.time = (b.frames, b.left)) ∧
        0 ≤ b.left ∧ b.left < 1 / 60 ∧
        (((rounds.map Round.frames).take (k + 1)).sum : ℚ) / 60 + b.left =
          ((madeUp (clock.headD 0) (beats.map Beat.start)).take (k + 1)).sum ∧
        r.frames ≤ 15 ∧ (0 < k → 1 ≤ r.frames) ∧
        (r.titled = true ↔ ∀ j < k, ∀ earlier ∈ beats[j]?, ⌊earlier.start⌋ < ⌊b.start⌋) := by
  intro beats
  have hsteady := steady_starting hclock
  obtain ⟨rounds, hending⟩ := ending_runFrom .exact fe .starting clock (e := e) rfl
  have hstarts : ∀ now ∈ beats.map Beat.start, 0 ≤ now := by
    intro now hnow
    rw [Pace.map_start_beats] at hnow
    exact hpositive now (Pace.mem_of_mem_starts .exact hnow)
  have hdue : e.nextReport = ((0 : ℤ) : ℚ) := nextReport_setUp hnew
  refine ⟨fun _ _ _ _ _ _ => pace_of_takeReading, rounds, hending, fun k r hr => ?_⟩
  obtain ⟨b, hb, hrb, htitled⟩ := hending.exists_beat hr
  have hmem : b ∈ beats := List.mem_of_getElem? hb
  have hpays := hsteady.pays_of_mem hmem
  refine ⟨b, hb, hrb.symm, hpays.ends, hpays.nonneg, hpays.lt_frame, ?_, ?_, ?_, ?_⟩
  · have hbegun : k + 1 ≤ rounds.length := (List.getElem?_eq_some_iff.1 hr).1
    rw [← hending.take_frames hbegun, hsteady.conserves hb, zero_add]
  · exact hrb ▸ hsteady.frames_le (by norm_num) hmem
  · intro hk
    obtain ⟨k, rfl⟩ := Nat.exists_eq_add_one_of_ne_zero hk.ne'
    exact hrb ▸ hsteady.one_le_frames hb
  · have hstart : (beats.map Beat.start)[k]? = some b.start := by
      rw [List.getElem?_map, hb]
      rfl
    have hzero : 0 ≤ ⌊b.start⌋ := Int.floor_nonneg.2 (hstarts _ (List.mem_map_of_mem hmem))
    rw [hdue] at htitled
    rw [dues_exact hstarts 0 hstart htitled, and_iff_right hzero]
    simp only [List.getElem?_map, Option.mem_map, forall_exists_index, and_imp,
      forall_apply_eq_imp_iff₂]

/-- A program that jumps on the spot, and a stall of half a second after the first round: the second has
fifteen frames, for what goes beyond a quarter second is not made up for. -/
theorem rounds_keep_time_of_stall :
    let clock : List ℚ := [0, 0, 1 / 2, 1 / 2]
    let fe : FrontEnd Unit := ⟨fun _ => pure (), fun _ => pure (), pure ⟨[], false⟩, fun _ => pure ()⟩
    let i := (Interpreter.new Dialect.modern false (Cycle.mk [0] 0)).after [.loadRom [0x12, 0x00]]
    clock.Pairwise (· ≤ ·) ∧ (∀ now ∈ clock, 0 ≤ now) ∧
      ∃ e, setUp fe (.integer 60) (Emulator.initial .exact i ()) = .ok () e ∧
        ∃ first second e', run .exact fe clock e = .error .clockExhausted e' ∧
          Ending .exact fe e.opsPerFrame .starting clock e [first, second] (run .exact fe clock e) ∧
          first.frames = 0 ∧ first.titled = true ∧ second.frames = 15 ∧ second.titled = false := by
  intro clock fe i
  have hclock : clock.Pairwise (· ≤ ·) := by norm_num [clock]
  have hpositive : ∀ now ∈ clock, 0 ≤ now := by norm_num [clock]
  have hnew (i : Interpreter Cycle) : setUp fe (.integer 60) (Emulator.initial .exact i ()) =
      .ok () (fresh .exact 1 i ()) := rfl
  obtain ⟨-, rounds, hending, hrounds⟩ := rounds_keep_time (hnew i) hclock hpositive
  have hbeats : Pace.beats .exact .starting clock = [⟨0, 0, 0, 0⟩, ⟨1 / 2, 1 / 4, 15, 0⟩] := by
    decide +kernel
  -- this front end refuses nothing, so only a fault could come in between
  have hfe : ∀ i f event i' f', ¬Fails (ρ := Cycle) fe i f event .clockExhausted i' f' := by
    intro i f event i' f' hfails
    cases hfails with
    | title hset => cases hset
    | print hprint =>
      cases hline : i.tick.printed with
      | none => rw [hline] at hprint; cases hprint
      | some line => rw [hline] at hprint; cases hprint
    | poll hpoll => cases hpoll
    | present hshow => cases hshow
  have hran : (match run .exact fe clock (fresh .exact 1 i ()) with
      | .error .clockExhausted _ => true
      | _ => false) = true := by
    decide +kernel
  obtain ⟨e', hrun⟩ : ∃ e', run .exact fe clock (fresh .exact 1 i ()) = .error .clockExhausted e' := by
    split at hran
    · next e' hrun => exact ⟨e', hrun⟩
    · cases hran
  have hframes : rounds.map Round.frames = [0, 15] := by
    have hend := hending
    rw [hrun] at hend
    rw [hend.counts_of_exhausted hfe, ← Pace.map_frames_beats, hbeats]
    rfl
  obtain ⟨first, second, rfl⟩ : ∃ first second, rounds = [first, second] := by
    have hlength := congrArg List.length hframes
    rw [List.length_map] at hlength
    exact List.length_eq_two.1 hlength
  obtain ⟨b, hb, -, -, -, -, -, -, -, hfirst⟩ := hrounds 0 first rfl
  obtain ⟨b', hb', -, -, -, -, -, -, -, hsecond⟩ := hrounds 1 second rfl
  rw [hbeats] at hb hb' hfirst hsecond
  cases hb
  cases hb'
  simp only [List.map_cons, List.map_nil, List.cons.injEq, and_true] at hframes
  refine ⟨hclock, hpositive, _, hnew i, first, second, e', hrun, hending, hframes.1,
    hfirst.2 (by simp), hframes.2, Bool.eq_false_iff.2 fun h => ?_⟩
  have hlater : ⌊(0 : ℚ)⌋ < ⌊(1 / 2 : ℚ)⌋ := hsecond.1 h 0 (by decide) _ rfl
  norm_num at hlater

end Emulation

end Chip8
