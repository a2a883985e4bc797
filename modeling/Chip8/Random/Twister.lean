import Chip8.Random.Source

/-!
# The Mersenne Twister

The generator MT19937: 624 words of 32 bits, renewed together and tempered one by one.  An integer
seed enters as the little-endian 32 bit words of its absolute value.  Bytes are drawn evenly by
taking the top nine bits of an output until they are below 256.
-/

namespace Chip8

/-- The state of the generator: its words and the number of them already given out. -/
structure Twister where
  words : Array UInt32
  used : Nat
deriving Inhabited

namespace Twister

/-- The number of words of state. -/
def size : Nat := 624

/-- A word mixed with its own high bits, the step of all seeding formulas. -/
def mix (w : UInt32) : UInt32 := w ^^^ (w >>> 30)

/-- The words that a single 32 bit seed expands to. -/
def expand (seed : UInt32) : Array UInt32 :=
  (List.range (size - 1)).foldl
    (fun ws i => ws.push (1812433253 * mix (ws.getD i 0) + UInt32.ofNat (i + 1))) #[seed]

/-- The words being seeded, with the position to change next. -/
structure Seeding where
  words : Array UInt32
  position : Nat

/-- Sets the word at the position and moves on; past the end the first word takes the last one's
value and the position returns to 1. -/
def Seeding.put (s : Seeding) (w : UInt32) : Seeding :=
  let words := s.words.setIfInBounds s.position w
  if s.position + 1 < size then ⟨words, s.position + 1⟩
  else ⟨words.setIfInBounds 0 (words.getD (size - 1) 0), 1⟩

/-- The word at the position, mixed by `factor` with the word before it. -/
def Seeding.blend (s : Seeding) (factor : UInt32) : UInt32 :=
  s.words.getD s.position 0 ^^^ (mix (s.words.getD (s.position - 1) 0) * factor)

/-- The generator seeded by a list of words. -/
def ofKey (key : Array UInt32) : Twister :=
  let start : Seeding := ⟨expand 19650218, 1⟩
  let keyed := (List.range (max size key.size)).foldl
    (fun s k =>
      let j := k % key.size
      s.put (s.blend 1664525 + key.getD j 0 + UInt32.ofNat j)) start
  let mixed := (List.range (size - 1)).foldl
    (fun s _ => s.put (s.blend 1566083941 - UInt32.ofNat s.position)) keyed
  ⟨mixed.words.setIfInBounds 0 0x80000000, size⟩

/-- The little-endian 32 bit words of a natural number, none for zero. -/
def wordsOfNat (n : Nat) : List UInt32 :=
  if n = 0 then [] else UInt32.ofNat n :: wordsOfNat (n / 4294967296)
termination_by n
decreasing_by omega

/-- The generator seeded by an integer, whose sign does not matter. -/
def ofSeed (seed : Int) : Twister :=
  match wordsOfNat seed.natAbs with
  | [] => ofKey #[0]
  | ws => ofKey ws.toArray

/-- The new value of the word at `k`, from its successor and the word 397 places on. -/
def renewedWord (ws : Array UInt32) (k : Nat) : UInt32 :=
  let y := (ws.getD k 0 &&& 0x80000000) ||| (ws.getD ((k + 1) % size) 0 &&& 0x7fffffff)
  ws.getD ((k + 397) % size) 0 ^^^ (y >>> 1) ^^^ (if y &&& 1 = 0 then 0 else 0x9908b0df)

/-- All words renewed, in place and in order. -/
def renew (ws : Array UInt32) : Array UInt32 :=
  (List.range size).foldl (fun ws k => ws.setIfInBounds k (renewedWord ws k)) ws

/-- The output made of a word of state. -/
def temper (w : UInt32) : UInt32 :=
  let a := w ^^^ (w >>> 11)
  let b := a ^^^ ((a <<< 7) &&& 0x9d2c5680)
  let c := b ^^^ ((b <<< 15) &&& 0xefc60000)
  c ^^^ (c >>> 18)

/-- The next 32 bit output. -/
def next (t : Twister) : UInt32 × Twister :=
  let t := if t.used < size then t else ⟨renew t.words, 0⟩
  (temper (t.words.getD t.used 0), { t with used := t.used + 1 })

/-- The first output whose top nine bits are below 256, among the next `tries`. -/
def byteWithin (t : Twister) : Nat → Nat × Twister
  | 0 => (0, t)
  | tries + 1 =>
    let (w, rest) := t.next
    let bits := (w >>> 23).toNat
    if bits < 256 then (bits, rest) else byteWithin rest tries

/-- The outputs looked at for one byte, of which about half serve. -/
def patience : Nat := 20000

/-- The next byte. -/
def nextByte (t : Twister) : Nat × Twister := byteWithin t patience

end Twister

instance : NumberSource Twister where
  draw t := ((t.nextByte.1 : Int), t.nextByte.2)

end Chip8
