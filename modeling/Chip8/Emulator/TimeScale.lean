/-!
# Time scales

The arithmetic of clock readings, in seconds.  The pace of the emulator needs only sums, differences
and comparisons, so it can be told for any numbers: for the doubles that a clock delivers, and for
exact rationals.  Logical frames last a sixtieth of a second; of a longer stretch of time than a quarter
second no more than that is made up for.
-/

namespace Chip8

/-- The number of logical frames in a second. -/
def framesPerSecond : Nat := 60

/-- The arithmetic of clock readings. -/
structure TimeScale (τ : Type) where
  zero : τ
  add : τ → τ → τ
  sub : τ → τ → τ
  lt : τ → τ → Bool
  le : τ → τ → Bool
  /-- The length of a frame. -/
  frame : τ
  /-- The longest stretch that is made up for. -/
  longest : τ
  /-- The whole seconds of a reading, and one more. -/
  nextSecond : τ → τ
  /-- At least the number of whole frames in a stretch of time. -/
  frameBound : τ → Nat

namespace TimeScale

variable {τ : Type} (t : TimeScale τ)

/-- The stretch between two readings, cut to the longest. -/
def stretch (earlier later : τ) : τ :=
  if t.lt t.longest (t.sub later earlier) then t.longest else t.sub later earlier

/-- The number of frames paid out of a stretch of time one by one, at most `most`, and what is left. -/
def payOut : Nat → τ → Nat × τ
  | 0, time => (0, time)
  | most + 1, time =>
    if t.le t.frame time then
      let (frames, left) := payOut most (t.sub time t.frame)
      (frames + 1, left)
    else (0, time)

/-- The number of whole frames in a stretch of time, and what is left. -/
def framesIn (time : τ) : Nat × τ := t.payOut (t.frameBound time) time

/-- The whole part of a double, towards zero. -/
def truncated (x : Float) : Float := if x < 0 then x.ceil else x.floor

/-- The whole part of a double, towards zero, as an integer. -/
def wholePart (x : Float) : Int :=
  let (m, e) := x.frExp
  let digits := (m.scaleB 53).toInt64.toInt
  Int.tdiv (digits * Nat.pow 2 (e - 53).toNat) (Nat.pow 2 (53 - e).toNat)

/-- Seconds as doubles. -/
def seconds : TimeScale Float where
  zero := 0
  add := (· + ·)
  sub := (· - ·)
  lt a b := decide (a < b)
  le a b := decide (a ≤ b)
  frame := 1 / 60
  longest := 0.25
  nextSecond x := truncated x + 1
  frameBound x := (x * 60).toUInt64.toNat + 2

/-- Seconds as exact rationals. -/
def exact : TimeScale Rat where
  zero := 0
  add := (· + ·)
  sub := (· - ·)
  lt a b := decide (a < b)
  le a b := decide (a ≤ b)
  frame := 1 / 60
  longest := 1 / 4
  nextSecond x := (if x < 0 then x.ceil else x.floor) + 1
  frameBound x := (x * 60).floor.toNat + 1

end TimeScale

end Chip8
