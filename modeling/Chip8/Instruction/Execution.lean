import Chip8.Instruction.Basic
import Chip8.Instruction.Dialect
import Chip8.Machine.Basic

/-!
# What instructions do

`Instruction.execute` runs one instruction on the machine, in a dialect.  The word has been fetched
and the program counter already points behind it.  An instruction that sets the flag register `VF`
sets it last, so that the flag wins where `VF` is also the result.  A block is moved whole or not at
all; only a sprite may be left half drawn, when its bytes run past the end of memory.
-/

namespace Chip8

open Chip8.Action

/-- The address of the glyph of digit 0; the glyphs of five bytes each follow one another. -/
def fontStart : Nat := 0x50

/-- The number of bytes of a glyph. -/
def glyphSize : Nat := 5

/-- The value that an index register of sixteen bits keeps of an integer. -/
def wrapIndex (i : Int) : Int := i % 65536

namespace Alu

/-- The result of an operation on the bytes `a` and `b`, with the new flag if it sets one.  For the
shifts, `b` is the byte to be shifted. -/
def result (op : Alu) (a b : UInt8) : UInt8 × Option Bool :=
  match op with
  | copy => (b, none)
  | or => (a ||| b, none)
  | and => (a &&& b, none)
  | xor => (a ^^^ b, none)
  | add => (a + b, some (decide (255 < a.toNat + b.toNat)))
  | sub => (a - b, some (decide (b.toNat ≤ a.toNat)))
  | subFrom => (b - a, some (decide (a.toNat ≤ b.toNat)))
  | shiftRight => (b >>> 1, some (b.toNat.testBit 0))
  | shiftLeft => (b <<< 1, some (b.toNat.testBit 7))

/-- Whether the operation shifts. -/
def isShift : Alu → Bool
  | shiftRight | shiftLeft => true
  | _ => false

/-- Whether the operation is bitwise. -/
def isBitwise : Alu → Bool
  | or | and | xor => true
  | _ => false

/-- The flag that an operation leaves in a dialect, if it leaves one. -/
def flag (op : Alu) (d : Dialect) (a b : UInt8) : Option Bool :=
  if op.isBitwise && d .logic then some false else (op.result a b).2

end Alu

namespace Instruction

variable {ρ : Type}

/-- Combines two registers. -/
def executeAlu (d : Dialect) (op : Alu) (x y : Register) : Action ρ Unit := do
  let a ← v x
  let b ← v (if op.isShift && d .shift then x else y)
  setV x (op.result a b).1
  match op.flag d a b with
  | some on => setFlag on
  | none => pure ()

/-- Draws the sprite rows numbered `rows`, whose origin on the frame is `(x, y)`, and answers whether
a lit cell was erased. -/
def drawRows (wrap : Bool) (x y : Int) : List Nat → Action ρ Bool
  | [] => pure false
  | row :: rows => do
    let m ← get
    let bits ← attempt (m.memory.read (m.registers.i + row))
    let erased ← onFrame (Frame.toggleAll wrap (Frame.rowCells bits x (y + row)))
    let more ← drawRows wrap x y rows
    return erased || more

/-- Draws a sprite of `rows` rows read from the index register on; its origin always wraps. -/
def executeDraw (d : Dialect) (x y : Register) (rows : Nat) : Action ρ Unit := do
  let frame := (← get).frame
  let left ← attempt (Frame.modulo (← v x).toNat frame.width)
  let upper ← attempt (Frame.modulo (← v y).toNat frame.height)
  let erased ← drawRows (d .wrap) left upper (List.range rows)
  setFlag erased

/-- The hundreds, tens and units of a byte. -/
def digits (b : UInt8) : List UInt8 := [b / 100, b / 10 % 10, b % 10]

/-- Writes a block at the index register. -/
def writeAtIndex (block : List UInt8) : Action ρ Unit := do
  let m ← get
  let memory ← attempt (m.memory.writeBlock m.registers.i block)
  set { m with memory }

/-- Moves the index register past `count` bytes if the dialect does so after moving registers. -/
def advanceIndex (d : Dialect) (count : Nat) : Action ρ Unit :=
  onRegisters fun r => if d .load then { r with i := wrapIndex (r.i + count) } else r

/-- The registers with the first of them replaced by a block. -/
def replaceV (old : Vector UInt8 16) (block : List UInt8) : Vector UInt8 16 :=
  Vector.ofFn fun k => block.getD k.val (old.get k)

/-- Runs an instruction. -/
def execute [NumberSource ρ] (d : Dialect) : Instruction → Action ρ Unit
  | clearFrame => onFrame (modify Frame.clear)
  | ret => do
    let (target, stack) ← attempt (← get).stack.pop
    modify fun m => { m with stack }
    setPc target
  | jump target => setPc target.val
  | call target => do
    let m ← get
    let stack ← attempt (m.stack.push m.registers.pc)
    set { m with stack }
    setPc target.val
  | skipIfByte x value => do skipIf ((← v x) == value)
  | skipUnlessByte x value => do skipIf ((← v x) != value)
  | skipIfSame x y => do skipIf ((← v x) == (← v y))
  | setByte x value => setV x value
  | addByte x value => do setV x ((← v x) + value)
  | alu op x y => executeAlu d op x y
  | skipUnlessSame x y => do skipIf ((← v x) != (← v y))
  | setIndex target => setI target.val
  | jumpPlus target => do
    let offset ← v (if d .jump then ⟨target.val / 256, by omega⟩ else .first)
    setPc (target.val + offset.toNat)
  | random x mask => do
    let number ← drawNumber
    setV x (UInt8.ofInt number &&& mask)
  | draw x y rows => executeDraw d x y rows.val
  | skipIfKey x => do skipIf ((← get).keypad.isDown (← v x).toNat)
  | skipUnlessKey x => do skipIf (!(← get).keypad.isDown (← v x).toNat)
  | getDelay x => do setV x (← attempt (Memory.byte? (← registers).dt))
  | awaitKey x => do
    match (← get).keypad.firstPressed with
    | none => onRegisters fun r => { r with pc := r.pc - 2 }
    | some key => setV x (UInt8.ofNat key.val)
  | setDelay x => do
    let b ← v x
    onRegisters fun r => { r with dt := b.toNat }
  | setSound x => do
    let b ← v x
    onRegisters fun r => { r with st := b.toNat }
  | addIndex x => do
    let sum := (← registers).i + (← v x).toNat
    setI (wrapIndex sum)
    if d .indexOverflow then setFlag (decide (0xFFF < sum)) else pure ()
  | glyph x => do setI (fontStart + glyphSize * ((← v x).toNat % 16))
  | storeDigits x => do writeAtIndex (digits (← v x))
  | store x => do
    writeAtIndex ((← registers).v.toList.take (x.val + 1))
    advanceIndex d (x.val + 1)
  | load x => do
    let m ← get
    let block ← attempt (m.memory.readBlock m.registers.i (x.val + 1))
    onRegisters fun r => { r with v := replaceV r.v block }
    advanceIndex d (x.val + 1)

end Instruction

end Chip8
