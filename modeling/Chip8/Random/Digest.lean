/-!
# Digests

The digest SHA-512 of a list of bytes: blocks of 128 bytes are mixed in turn into eight words of 64
bits.  Its constants are the first bits behind the point of the square and cube roots of the first
primes.
-/

namespace Chip8.Digest

/-! ### Constants -/

/-- Whether a number has no divisor but itself and 1. -/
def isPrime (n : Nat) : Bool := decide (2 ≤ n) && (List.range n).all fun d => d < 2 || n % d != 0

/-- The first eighty primes. -/
def primes : List Nat := (List.range 410).filter isPrime

/-- The greatest number from `r` on, with `bits` more bits set, whose power is at most `n`. -/
def rootFrom (power n r : Nat) : Nat → Nat
  | 0 => r
  | bits + 1 =>
    let next := r + Nat.pow 2 bits
    rootFrom power n (if Nat.pow next power ≤ n then next else r) bits

/-- The first 64 bits behind the point of a root of a number below 512. -/
def rootBits (power n : Nat) : UInt64 :=
  UInt64.ofNat (rootFrom power (n * Nat.pow 2 (64 * power)) 0 73)

/-- The words of the digest of nothing. -/
def initial : Array UInt64 := ((primes.take 8).map (rootBits 2)).toArray

/-- The constants of the rounds. -/
def roundConstants : List UInt64 := primes.map (rootBits 3)

/-! ### Blocks -/

/-- A word turned right. -/
def rotate (w n : UInt64) : UInt64 := (w >>> n) ||| (w <<< (64 - n))

/-- A natural number as a number of big-endian bytes. -/
def bytesOf (count n : Nat) : List UInt8 :=
  ((List.range count).map fun k => UInt8.ofNat (n / Nat.pow 256 k)).reverse

/-- The number that big-endian bytes are. -/
def valueOf (bytes : List UInt8) : Nat := bytes.foldl (fun n b => 256 * n + b.toNat) 0

/-- The bytes with a set bit, zeros, and their number of bits behind them. -/
def padded (bytes : List UInt8) : List UInt8 :=
  bytes ++ 0x80 :: (List.replicate (127 - (bytes.length + 16) % 128) 0 ++ bytesOf 16 (8 * bytes.length))

/-- The first `count` words of big-endian bytes. -/
def wordsOf (count : Nat) (bytes : List UInt8) : List UInt64 :=
  (List.range count).map fun k => UInt64.ofNat (valueOf ((bytes.drop (8 * k)).take 8))

/-- The word that follows the words from `k` to `k + 15`. -/
def nextWord (ws : Array UInt64) (k : Nat) : UInt64 :=
  let a := ws.getD (k + 1) 0
  let b := ws.getD (k + 14) 0
  ws.getD k 0 + (rotate a 1 ^^^ rotate a 8 ^^^ (a >>> 7))
    + ws.getD (k + 9) 0 + (rotate b 19 ^^^ rotate b 61 ^^^ (b >>> 6))

/-- The words of a block, with those that follow from them: one for each round. -/
def schedule (block : List UInt8) : Array UInt64 :=
  (List.range 64).foldl (fun ws k => ws.push (nextWord ws k)) (wordsOf 16 block).toArray

/-- The bits of `f` where those of `e` are set, else those of `g`. -/
def select (e f g : UInt64) : UInt64 := (e &&& f) ^^^ ((~~~ e) &&& g)

/-- The bits that are set in two of three words. -/
def majority (a b c : UInt64) : UInt64 := (a &&& b) ^^^ (a &&& c) ^^^ (b &&& c)

/-- The eight words after one round, which takes the sum of its word and its constant. -/
def round (s : Array UInt64) (w : UInt64) : Array UInt64 :=
  let a := s.getD 0 0
  let b := s.getD 1 0
  let c := s.getD 2 0
  let e := s.getD 4 0
  let f := s.getD 5 0
  let g := s.getD 6 0
  let x := s.getD 7 0 + (rotate e 14 ^^^ rotate e 18 ^^^ rotate e 41) + select e f g + w
  let y := (rotate a 28 ^^^ rotate a 34 ^^^ rotate a 39) + majority a b c
  #[x + y, a, b, c, s.getD 3 0 + x, e, f, g]

/-- The eight words after a block. -/
def compress (s : Array UInt64) (block : List UInt8) : Array UInt64 :=
  let mixed := (List.zipWith (· + ·) (schedule block).toList roundConstants).foldl round s
  Array.zipWith (· + ·) s mixed

/-- The digest of a list of bytes. -/
def sha512 (bytes : List UInt8) : List UInt8 :=
  let all := padded bytes
  let blocks := (List.range (all.length / 128)).map fun k => (all.drop (128 * k)).take 128
  (blocks.foldl compress initial).toList.flatMap fun w => bytesOf 8 w.toNat

end Chip8.Digest
