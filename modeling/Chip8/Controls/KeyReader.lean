import Chip8.Controls.Keymap

/-!
# Keys from typed characters

A terminal delivers characters, not presses and releases.  A reader takes the characters as they are
typed and puts the keys they stand for into a queue of sixteen places, where a poll finds them.  Each
key found is held down for a while from the time of the poll; typing it again prolongs the while.  The
escape character and the interrupt character ask to quit.  A key that finds the queue full is dropped;
a request to quit has to wait.  The reader has its turns beside the polls, also between two looks of one
poll into the queue, and whatever befalls it befalls no one else.
-/

namespace Chip8

open Text

/-- What stands in the queue. -/
inductive QueueItem
  | key (k : Key)
  | quit
deriving DecidableEq, Inhabited

/-- How many items the queue holds. -/
def queueCapacity : Nat := 16

/-- The characters that ask to quit: escape and interrupt. -/
def quitCharacters : List Int := [27, 3]

/-- What the reader does when it has its turn. -/
inductive ReaderTurn
  | read (chars : List Int)
  /-- It puts in the request to quit that waits, if there is room by now. -/
  | settle
deriving DecidableEq, Inhabited

/-- The reader's part of the keys. -/
structure KeyReader where
  keymap : Keymap
  /-- The items in the queue, oldest first. -/
  queue : List QueueItem
  running : Bool
  /-- Whether a request to quit waits for room in the queue. -/
  waiting : Bool
deriving DecidableEq, Inhabited

namespace KeyReader

/-- A reader that has read nothing yet. -/
def new (m : Keymap) : KeyReader := ⟨m, [], true, false⟩

/-- Whether the queue has no room. -/
def isFull (r : KeyReader) : Bool := decide (queueCapacity ≤ r.queue.length)

/-- The item that a character in lower case stands for. -/
def item? (m : Keymap) (code : Int) : Option QueueItem :=
  if code ∈ quitCharacters then some .quit else (m.key? code).map .key

/-- Puts an item into the queue: a key only if there is room; a request to quit is the reader's last,
and has to wait if there is none. -/
def offer (r : KeyReader) : QueueItem → KeyReader
  | .key k => if r.isFull then r else { r with queue := r.queue ++ [.key k] }
  | .quit =>
    if r.isFull then { r with running := false, waiting := true }
    else { r with queue := r.queue ++ [.quit], running := false }

/-- Reads one character; a negative one says that there was none.  The reader fails at one that has no
single lower case character. -/
def readOne (r : KeyReader) (char : Int) : KeyReader × Option CodeFault :=
  if char < 0 then (r, none)
  else match lowerCode char with
    | .error f => ({ r with running := false }, some f)
    | .ok code =>
      match item? r.keymap code with
      | none => (r, none)
      | some item => (r.offer item, none)

/-- Reads characters until they are used up or the reader stops, and answers why it failed if it
did. -/
def readAll (r : KeyReader) : List Int → KeyReader × Option CodeFault
  | [] => (r, none)
  | char :: chars =>
    if r.running then
      match r.readOne char with
      | (r, none) => r.readAll chars
      | failed => failed
    else (r, none)

/-- Lets a waiting request to quit into the queue, if there is room by now. -/
def settle (r : KeyReader) : KeyReader :=
  if r.waiting ∧ ¬ r.isFull then { r with queue := r.queue ++ [.quit], waiting := false } else r

/-- The reader after a turn; if it fails, it has stopped. -/
def act (r : KeyReader) : ReaderTurn → KeyReader
  | .read chars => (r.readAll chars).1
  | .settle => r.settle

/-- The reader after turns. -/
def actAll (r : KeyReader) (turns : List ReaderTurn) : KeyReader := turns.foldl act r

/-- The reader told to stop. -/
def stop (r : KeyReader) : KeyReader := { r with running := false }

end KeyReader

/-- The arithmetic of the times at which keys are polled. -/
structure HoldScale (τ : Type) where
  /-- Before every release. -/
  start : τ
  /-- The time of release of a key found at a time. -/
  release : τ → τ
  lt : τ → τ → Bool

/-- Seconds as doubles; a key is held for a fifth of a second. -/
def HoldScale.seconds : HoldScale Float where
  start := 0
  release now := now + 0.2
  lt a b := decide (a < b)

/-- The polling part of the keys. -/
structure HeldKeys (τ : Type) where
  /-- When each key will be released. -/
  deadline : Vector τ 16
  /-- Whether each key was last reported as down. -/
  reported : Vector Bool 16
deriving Inhabited

namespace HeldKeys

variable {τ : Type}

/-- The keys before any was found. -/
def none (h : HoldScale τ) : HeldKeys τ :=
  ⟨Vector.replicate 16 h.start, Vector.replicate 16 false⟩

/-- The keys after those at the front of a queue were found at a time, up to a request to quit; with
the rest of the queue, and whether there was a request. -/
def drain (h : HoldScale τ) (now : τ) :
    HeldKeys τ → List QueueItem → HeldKeys τ × List QueueItem × Bool
  | s, [] => (s, [], false)
  | s, .quit :: queue => (s, queue, true)
  | s, .key k :: queue =>
    drain h now { s with deadline := s.deadline.set k.val (h.release now) k.lt } queue

/-- Whether a key is down at a time. -/
def isDown (h : HoldScale τ) (now : τ) (s : HeldKeys τ) (k : Key) : Bool :=
  h.lt now (s.deadline.get k)

/-- The keys whose state at a time is not the one reported, with that state. -/
def changes (h : HoldScale τ) (now : τ) (s : HeldKeys τ) : List (Key × Bool) :=
  (Key.all.filter fun k => s.isDown h now k != s.reported.get k).map fun k =>
    (k, s.isDown h now k)

/-- The keys with their state at a time reported. -/
def report (h : HoldScale τ) (now : τ) (s : HeldKeys τ) : HeldKeys τ :=
  { s with reported := Vector.ofFn (s.isDown h now) }

end HeldKeys

/-- The keys typed at a terminal. -/
structure TypedKeys (τ : Type) where
  reader : KeyReader
  held : HeldKeys τ
deriving Inhabited

namespace TypedKeys

variable {τ : Type}

/-- The keys before anything was typed. -/
def new (h : HoldScale τ) (m : Keymap) : TypedKeys τ := ⟨.new m, .none h⟩

/-- Types characters. -/
def type (s : TypedKeys τ) (chars : List Int) : TypedKeys τ × Option CodeFault :=
  let (reader, fault) := s.reader.readAll chars
  ({ s with reader }, fault)

/-- Polls at a time: answers the changes of keys and whether to quit.  A poll that finds a request to
quit looks no further. -/
def poll (h : HoldScale τ) (now : τ) (s : TypedKeys τ) :
    TypedKeys τ × List (Key × Bool) × Bool :=
  let (held, queue, quit) := s.held.drain h now s.reader.queue
  let reader := { s.reader with queue }
  if quit then (⟨reader, held⟩, [], true)
  else (⟨reader, held.report h now⟩, held.changes h now, false)

/-- Polls at a time while the reader has turns before each look into the queue, and answers the turns
left over as well.  A look that finds a key is followed by another. -/
def pollAmong (h : HoldScale τ) (now : τ) :
    List (List ReaderTurn) → TypedKeys τ →
      (TypedKeys τ × List (Key × Bool) × Bool) × List (List ReaderTurn)
  | [], s => (s.poll h now, [])
  | turns :: later, s =>
    let reader := s.reader.actAll turns
    match reader.queue with
    | .key k :: queue =>
      pollAmong h now later ⟨{ reader with queue }, (s.held.drain h now [.key k]).1⟩
    | _ => (poll h now { s with reader }, later)

/-- The keys with the reader told to stop. -/
def shutDown (s : TypedKeys τ) : TypedKeys τ := { s with reader := s.reader.stop }

end TypedKeys

end Chip8
