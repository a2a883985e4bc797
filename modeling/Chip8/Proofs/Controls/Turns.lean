import Chip8.Proofs.Controls.Keymaps
import Mathlib.Data.List.Basic

/-!
# The reader and the polls take turns

The reader of characters and the polls share a queue and take turns in any order.  A turn of the reader
reads one character, or puts in a request to quit that waits for room.  A turn of the polling side starts
a poll, or takes one item for the poll under way.

What a turn does is one of the cases of `Handover.Effect` (`Handover.effect_next`).  Every turn keeps
`Handover.Inv` (`Handover.Effect.inv`), lets the keys drained and queued grow by those that find room
(`Handover.Effect.keys_eq`), and neither loses nor makes up a request to quit
(`Handover.Effect.quits_eq`).
-/

namespace Chip8

open Text

/-- The key that stands in the queue. -/
def QueueItem.key? : QueueItem → Option Key
  | .key k => some k
  | .quit => none

/-- The two parties with a record of what was handed over. -/
structure Handover (τ : Type) where
  typed : TypedKeys τ
  /-- The time of the poll under way. -/
  polling : Option τ
  /-- The keys that polls took. -/
  drained : List Key
  /-- The answers of the polls that ended. -/
  answers : List Bool

namespace Handover

variable {τ : Type}

/-- What one of the parties does. -/
inductive Turn (τ : Type)
  /-- The reader reads a character, unless it has stopped. -/
  | read (char : Int)
  /-- The reader puts in the request to quit that waits, if there is room. -/
  | settle
  /-- A poll starts at a time, unless one is under way. -/
  | start (now : τ)
  /-- The poll under way takes the next item, or ends if there is none. -/
  | take

/-- The two parties before anything was typed. -/
def new (h : HoldScale τ) (m : Keymap) : Handover τ := ⟨.new h m, none, [], []⟩

def reader (s : Handover τ) : KeyReader := s.typed.reader

def queue (s : Handover τ) : List QueueItem := s.reader.queue

/-- The parties with the reader in another state. -/
def withReader (s : Handover τ) (reader : KeyReader) : Handover τ :=
  { s with typed := { s.typed with reader } }

/-- What a poll that started at a time does next. -/
def take (h : HoldScale τ) (now : τ) (s : Handover τ) : Handover τ :=
  match s.queue with
  | [] => { s with
      typed := { s.typed with held := s.typed.held.report h now }
      polling := none
      answers := s.answers ++ [false] }
  | .quit :: queue => { s with
      typed := { s.typed with reader := { s.reader with queue } }
      polling := none
      answers := s.answers ++ [true] }
  | .key k :: queue => { s with
      typed := ⟨{ s.reader with queue }, (s.typed.held.drain h now [.key k]).1⟩
      drained := s.drained ++ [k] }

/-- The parties after a turn. -/
def next (h : HoldScale τ) (s : Handover τ) : Turn τ → Handover τ
  | .read char => if s.reader.running then s.withReader (s.reader.readOne char).1 else s
  | .settle => s.withReader s.reader.settle
  | .start now => if s.polling.isSome then s else { s with polling := some now }
  | .take =>
    match s.polling with
    | none => s
    | some now => s.take h now

/-- The parties after turns. -/
def run (h : HoldScale τ) (s : Handover τ) (turns : List (Turn τ)) : Handover τ :=
  turns.foldl (next h) s

/-- The character that the reader reads in a turn, with whether the queue is full. -/
def readIn (s : Handover τ) : Turn τ → List (Int × Bool)
  | .read char => if s.reader.running then [(char, s.reader.isFull)] else []
  | _ => []

/-- The characters that the reader reads in turns, each with whether the queue was full. -/
def reads (h : HoldScale τ) (s : Handover τ) : List (Turn τ) → List (Int × Bool)
  | [] => []
  | t :: ts => s.readIn t ++ reads h (s.next h t) ts

/-- The keys that found room, among the characters read. -/
def keysOf (codes : List Int) (reads : List (Int × Bool)) : List Key :=
  reads.filterMap fun r => if r.2 then none else Keymap.keyOf? codes r.1

/-- How many of the characters read ask to quit. -/
def quitsOf (reads : List (Int × Bool)) : Nat := reads.countP fun r => decide (r.1 ∈ quitCharacters)

/-- The keys that polls took, and then those that stand in the queue. -/
def keys (s : Handover τ) : List Key := s.drained ++ s.queue.filterMap QueueItem.key?

/-- How many requests to quit wait, stand in the queue, or were answered. -/
def quits (s : Handover τ) : Nat :=
  s.reader.waiting.toNat + s.queue.count .quit + s.answers.count true

/-- Whether a request to quit stands in the queue or was answered. -/
def Delivered (s : Handover τ) : Prop := .quit ∈ s.queue ∨ true ∈ s.answers

/-! ### The reader -/

/-- What the reader becomes with a character. -/
inductive Reading (codes : List Int) (r : KeyReader) (char : Int) : KeyReader → Prop
  | quit (hq : char ∈ quitCharacters) (hroom : r.isFull = false) :
      Reading codes r char { r with queue := r.queue ++ [.quit], running := false }
  | wait (hq : char ∈ quitCharacters) (hfull : r.isFull = true) :
      Reading codes r char { r with running := false, waiting := true }
  | key (k : Key) (hk : Keymap.keyOf? codes char = some k) (hq : char ∉ quitCharacters)
      (hroom : r.isFull = false) : Reading codes r char { r with queue := r.queue ++ [.key k] }
  | drop (hq : char ∉ quitCharacters) (hfull : r.isFull = true) : Reading codes r char r
  | skip (hk : Keymap.keyOf? codes char = none) (hq : char ∉ quitCharacters) :
      Reading codes r char r
  | fail (hk : Keymap.keyOf? codes char = none) (hq : char ∉ quitCharacters) :
      Reading codes r char { r with running := false }

variable {text : String} {m : Keymap} {codes : List Int}

theorem reading_readOne (hm : Keymap.parse text true = .ok m) (hc : Keymap.codes? text = .ok codes)
    {r : KeyReader} (hr : r.keymap = m) (char : Int) :
    Reading codes r char (r.readOne char).1 := by
  by_cases hneg : char < 0
  · obtain ⟨f, hf⟩ := lowerCode_of_neg hneg
    rw [KeyReader.readOne, if_pos hneg]
    exact .skip (Keymap.keyOf?_of_error hf) (notMem_quit_of_error hf)
  · cases hl : lowerCode char with
    | error f =>
      simp only [KeyReader.readOne, if_neg hneg, hl]
      exact .fail (Keymap.keyOf?_of_error hl) (notMem_quit_of_error hl)
    | ok l =>
      have hquit := KeyReader.item?_eq_quit_iff (m := m) hl
      have hkey {k : Key} := KeyReader.item?_eq_key_iff hm hc hl (k := k)
      cases hitem : KeyReader.item? m l with
      | none =>
        simp only [hitem, reduceCtorEq, false_iff] at hquit hkey
        simp only [KeyReader.readOne, if_neg hneg, hl, hr, hitem]
        exact .skip (Option.eq_none_iff_forall_ne_some.2 fun k => hkey) hquit
      | some item =>
        simp only [KeyReader.readOne, if_neg hneg, hl, hr, hitem]
        rw [hitem] at hquit hkey
        cases item with
        | quit =>
          have hq := hquit.1 rfl
          rw [KeyReader.offer]
          split
          · next hfull => exact .wait hq hfull
          · next hroom => exact .quit hq (Bool.not_eq_true _ ▸ hroom)
        | key k =>
          simp only [Option.some.injEq, reduceCtorEq, false_iff] at hquit
          rw [KeyReader.offer]
          split
          · next hfull => exact .drop hquit hfull
          · next hroom => exact .key k (hkey.1 rfl) hquit (Bool.not_eq_true _ ▸ hroom)

section Reading

variable {r r' : KeyReader} {char : Int}

/-- A key stands in the queue if it found room. -/
theorem Reading.keys_eq (hr : Reading codes r char r') :
    r'.queue.filterMap QueueItem.key? =
      r.queue.filterMap QueueItem.key? ++ keysOf codes [(char, r.isFull)] := by
  cases hr with
  | quit hq hroom => simp [keysOf, Keymap.keyOf?_of_mem_quit hq, QueueItem.key?]
  | wait hq hfull => simp [keysOf, hfull]
  | key k hk hq hroom => simp [keysOf, hk, hroom, QueueItem.key?]
  | drop hq hfull => simp [keysOf, hfull]
  | skip hk hq => simp [keysOf, hk]
  | fail hk hq => simp [keysOf, hk]

/-- A request to quit waits or stands in the queue. -/
theorem Reading.quits_eq (hr : Reading codes r char r') (hw : r.waiting = false) (full : Bool) :
    r'.waiting.toNat + r'.queue.count .quit = r.queue.count .quit + quitsOf [(char, full)] := by
  cases hr with
  | quit hq hroom => simp [quitsOf, hq, hw]
  | wait hq hfull => simp [quitsOf, hq, Nat.add_comm]
  | key k hk hq hroom => simp [quitsOf, hq, hw]
  | drop hq hfull => simp [quitsOf, hq, hw]
  | skip hk hq => simp [quitsOf, hq, hw]
  | fail hk hq => simp [quitsOf, hq, hw]

/-- A request to quit is the last thing that the reader reads. -/
theorem Reading.running_add_le (hr : Reading codes r char r') (full : Bool) :
    r'.running.toNat + quitsOf [(char, full)] ≤ 1 := by
  cases hr with
  | quit hq hroom => simp [quitsOf, hq]
  | wait hq hfull => simp [quitsOf, hq]
  | key k hk hq hroom => simp [quitsOf, hq, Bool.toNat_le]
  | drop hq hfull => simp [quitsOf, hq, Bool.toNat_le]
  | skip hk hq => simp [quitsOf, hq, Bool.toNat_le]
  | fail hk hq => simp [quitsOf, hq]

theorem Reading.keymap_eq (hr : Reading codes r char r') : r'.keymap = r.keymap := by
  cases hr <;> rfl

theorem length_lt_of_room (hroom : r.isFull = false) : r.queue.length < queueCapacity := by
  simpa [KeyReader.isFull] using hroom

theorem room_of_cons {item : QueueItem} {queue : List QueueItem} (hroom : r.isFull = false)
    (hq : r.queue = item :: queue) : ({ r with queue } : KeyReader).isFull = false := by
  have hlt := length_lt_of_room hroom
  rw [hq, List.length_cons] at hlt
  exact decide_eq_false (Nat.not_le.2 (Nat.lt_of_succ_lt hlt))

/-- At most one item is put in, if there is room. -/
theorem Reading.queue_eq (hr : Reading codes r char r') :
    r'.queue = r.queue ∨ r.isFull = false ∧ ∃ item, r'.queue = r.queue ++ [item] := by
  cases hr with
  | quit _ hroom => exact Or.inr ⟨hroom, _, rfl⟩
  | key k _ _ hroom => exact Or.inr ⟨hroom, _, rfl⟩
  | _ => exact Or.inl rfl

end Reading

/-! ### One turn -/

section Turn

variable {h : HoldScale τ} {s : Handover τ}

@[simp] theorem reader_withReader (r : KeyReader) : (s.withReader r).reader = r := rfl

@[simp] theorem queue_withReader (r : KeyReader) : (s.withReader r).queue = r.queue := rfl

theorem next_read (char : Int) (hr : s.reader.running = true) :
    s.next h (.read char) = s.withReader (s.reader.readOne char).1 :=
  if_pos hr

theorem next_read_of_stopped (char : Int) (hr : s.reader.running = false) :
    s.next h (.read char) = s :=
  if_neg (Bool.not_eq_true _ ▸ hr)

theorem settle_of_not_waiting {r : KeyReader} (hw : r.waiting = false) : r.settle = r :=
  if_neg fun hs => Bool.false_ne_true (hw.symm.trans hs.1)

/-- What every state keeps that turns lead to. -/
structure Inv (m : Keymap) (s : Handover τ) : Prop where
  keymap_eq : s.reader.keymap = m
  length_le : s.queue.length ≤ queueCapacity
  quit_last : .quit ∉ s.queue.dropLast
  /-- A reader that runs has seen no request to quit, and one that stopped one at most. -/
  running_add_le : s.reader.running.toNat + s.quits ≤ 1

theorem inv_new (h : HoldScale τ) (m : Keymap) : (new h m).Inv m :=
  ⟨rfl, Nat.zero_le _, List.not_mem_nil, Nat.le_refl 1⟩

theorem Inv.quits_of_running (hi : s.Inv m) (hr : s.reader.running = true) : s.quits = 0 := by
  have hle := hi.running_add_le
  rw [hr, Bool.toNat_true] at hle
  omega

theorem Inv.quits_le (hi : s.Inv m) : s.quits ≤ 1 :=
  Nat.le_of_add_left_le hi.running_add_le

/-- What a turn does to the reader, the record of keys and the record of answers. -/
inductive Effect (codes : List Int) (s : Handover τ) : Turn τ → Handover τ → Prop
  | read {char : Int} {r : KeyReader} (hr : s.reader.running = true)
      (hread : Reading codes s.reader char r) : Effect codes s (.read char) (s.withReader r)
  | settle (hw : s.reader.waiting = true) (hroom : s.reader.isFull = false) :
      Effect codes s .settle
        (s.withReader { s.reader with queue := s.queue ++ [.quit], waiting := false })
  | start {now : τ} (hp : s.polling = none) :
      Effect codes s (.start now) { s with polling := some now }
  | key {k : Key} {queue : List QueueItem} {held : HeldKeys τ} (hp : s.polling.isSome)
      (hq : s.queue = .key k :: queue) :
      Effect codes s .take
        { s with typed := ⟨{ s.reader with queue }, held⟩, drained := s.drained ++ [k] }
  | quit {queue : List QueueItem} (hp : s.polling.isSome) (hq : s.queue = .quit :: queue) :
      Effect codes s .take
        { s with
          typed := { s.typed with reader := { s.reader with queue } }
          polling := none
          answers := s.answers ++ [true] }
  | finish {held : HeldKeys τ} (hp : s.polling.isSome) (hq : s.queue = []) :
      Effect codes s .take
        { s with typed := { s.typed with held }, polling := none, answers := s.answers ++ [false] }
  | idle {t : Turn τ} (hread : s.readIn t = []) (hs : t = .settle → s.reader.waiting = true →
      s.reader.isFull = true) (hp : t = .take → s.polling = none) : Effect codes s t s

theorem effect_take (codes : List Int) {now : τ} (hp : s.polling = some now) :
    Effect codes s .take (s.take h now) := by
  have hsome : s.polling.isSome = true := Option.isSome_of_eq_some hp
  unfold take
  split
  · next hq => exact .finish hsome hq
  · next queue hq => exact .quit hsome hq
  · next k queue hq => exact .key hsome hq

theorem effect_next (h : HoldScale τ) (hm : Keymap.parse text true = .ok m)
    (hc : Keymap.codes? text = .ok codes) (hi : s.Inv m) (t : Turn τ) :
    Effect codes s t (s.next h t) := by
  cases t with
  | read char =>
    by_cases hr : s.reader.running = true
    · rw [next_read char hr]
      exact .read hr (reading_readOne hm hc hi.keymap_eq char)
    · rw [next_read_of_stopped char (Bool.not_eq_true _ ▸ hr)]
      exact .idle (if_neg hr) nofun nofun
  | settle =>
    show Effect codes s .settle (s.withReader s.reader.settle)
    unfold KeyReader.settle
    split
    · next hs => exact .settle hs.1 (Bool.not_eq_true _ ▸ hs.2)
    · next hs =>
      refine .idle rfl (fun _ hw => ?_) nofun
      by_contra hfull
      exact hs ⟨hw, hfull⟩
  | start now =>
    by_cases hp : s.polling.isSome = true
    · rw [next, if_pos hp]
      exact .idle rfl nofun nofun
    · rw [next, if_neg hp]
      exact .start (Option.not_isSome_iff_eq_none.1 hp)
  | take =>
    cases hp : s.polling with
    | none =>
      simp only [next, hp]
      exact .idle rfl nofun fun _ => hp
    | some now =>
      simp only [next, hp]
      exact effect_take codes hp

theorem readIn_read {char : Int} (hr : s.reader.running = true) :
    s.readIn (.read char) = [(char, s.reader.isFull)] :=
  if_pos hr

/-- The keys drained and queued grow by the keys that find room. -/
theorem Effect.keys_eq {t : Turn τ} {s' : Handover τ} (he : Effect codes s t s') :
    s'.keys = s.keys ++ keysOf codes (s.readIn t) := by
  cases he with
  | read hr hread =>
    rw [readIn_read hr]
    show s.drained ++ _ = s.drained ++ _ ++ _
    rw [queue_withReader, hread.keys_eq, List.append_assoc]
    rfl
  | settle hw hroom =>
    show s.drained ++ (s.queue ++ [QueueItem.quit]).filterMap QueueItem.key? = s.keys ++ []
    rw [List.filterMap_append, List.append_nil, keys]
    simp [QueueItem.key?]
  | start hp => exact (List.append_nil _).symm
  | key hp hq =>
    show (s.drained ++ [_]) ++ _ = s.keys ++ []
    rw [List.append_nil, List.append_assoc, keys, hq]
    rfl
  | quit hp hq =>
    show s.drained ++ _ = s.keys ++ []
    rw [List.append_nil, keys, hq]
    rfl
  | finish hp hq => exact (List.append_nil _).symm
  | idle hread => rw [hread, keysOf, List.filterMap_nil, List.append_nil]

/-- Requests to quit are neither lost nor made up. -/
theorem Effect.quits_eq {t : Turn τ} {s' : Handover τ} (he : Effect codes s t s')
    (hi : s.Inv m) : s'.quits = s.quits + quitsOf (s.readIn t) := by
  cases he with
  | @read char r hr hread =>
    have hnone := hi.quits_of_running hr
    unfold quits at hnone
    have hw : s.reader.waiting = false := Bool.toNat_eq_zero.1 (by omega)
    have hquits := hread.quits_eq hw s.reader.isFull
    rw [readIn_read hr]
    simp only [quits, hw, Bool.toNat_false] at hnone ⊢
    show r.waiting.toNat + r.queue.count .quit + s.answers.count true = 0 + s.queue.count .quit + _ + _
    rw [hquits]
    show s.queue.count .quit + _ + _ = _
    omega
  | settle hw hroom =>
    have hcount : (s.queue ++ [QueueItem.quit]).count .quit = s.queue.count QueueItem.quit + 1 :=
      List.count_append
    rw [quits, quits, queue_withReader, hcount, reader_withReader, hw, Bool.toNat_false,
      Bool.toNat_true, Nat.zero_add, Nat.add_comm 1]
    rfl
  | start hp => rfl
  | key hp hq =>
    simp only [quits, hq]
    rfl
  | @quit queue hp hq =>
    have hcount : s.queue.count .quit = queue.count QueueItem.quit + 1 := by
      rw [hq, List.count_cons_self]
    have hanswers : (s.answers ++ [true]).count true = s.answers.count true + 1 := List.count_append
    show s.reader.waiting.toNat + queue.count .quit + (s.answers ++ [true]).count true =
      s.reader.waiting.toNat + s.queue.count .quit + s.answers.count true + 0
    omega
  | finish hp hq =>
    simp only [quits, List.count_append]
    rfl
  | idle hread =>
    rw [hread]
    rfl

theorem not_mem_dropLast_of_cons {item : QueueItem} {queue : List QueueItem}
    (hq : .quit ∉ (item :: queue).dropLast) : .quit ∉ queue.dropLast := by
  cases queue with
  | nil => exact List.not_mem_nil
  | cons item' queue => exact fun hmem => hq (List.mem_cons_of_mem item hmem)

theorem not_mem_queue_of_quits (hq : s.quits = 0) : .quit ∉ s.queue := by
  rw [← List.count_eq_zero]
  unfold quits at hq
  omega

/-- A turn keeps the invariant. -/
theorem Effect.inv {t : Turn τ} {s' : Handover τ} (he : Effect codes s t s') (hi : s.Inv m) :
    s'.Inv m := by
  have hquits := he.quits_eq hi
  have hle := hi.length_le
  have hlast := hi.quit_last
  have hone := hi.running_add_le
  -- An item is put in behind the others only while no request to quit is among them: either the reader
  -- runs, or the request that is put in was the one that waited.
  cases he with
  | read hr hread =>
    have hnone := hi.quits_of_running hr
    refine ⟨hread.keymap_eq.trans hi.keymap_eq, ?_, ?_, ?_⟩
    · rcases hread.queue_eq with hsame | ⟨hroom, item, happend⟩
      · rwa [queue_withReader, hsame]
      · rw [queue_withReader, happend, List.length_append, List.length_singleton]
        exact length_lt_of_room hroom
    · rcases hread.queue_eq with hsame | ⟨hroom, item, happend⟩
      · rwa [queue_withReader, hsame]
      · rw [queue_withReader, happend, List.dropLast_concat]
        exact not_mem_queue_of_quits hnone
    · rw [hquits, hnone, Nat.zero_add, readIn_read hr]
      exact hread.running_add_le _
  | settle hw hroom =>
    have hcount : s.queue.count .quit = 0 := by
      have hle := hi.quits_le
      rw [quits, hw, Bool.toNat_true] at hle
      omega
    refine ⟨hi.keymap_eq, ?_, ?_, hquits ▸ hone⟩
    · rw [queue_withReader, List.length_append, List.length_singleton]
      exact length_lt_of_room hroom
    · rw [queue_withReader, List.dropLast_concat]
      exact List.count_eq_zero.1 hcount
  | start hp => exact ⟨hi.keymap_eq, hle, hlast, hone⟩
  | key hp hq =>
    rw [hq] at hle hlast
    exact ⟨hi.keymap_eq, Nat.le_of_succ_le hle, not_mem_dropLast_of_cons hlast, hquits ▸ hone⟩
  | quit hp hq =>
    rw [hq] at hle hlast
    exact ⟨hi.keymap_eq, Nat.le_of_succ_le hle, not_mem_dropLast_of_cons hlast, hquits ▸ hone⟩
  | finish hp hq => exact ⟨hi.keymap_eq, hle, hlast, hquits ▸ hone⟩
  | idle hread => exact hi

/-- Once the reader has stopped, what waits has waited before, and room for it stays. -/
theorem Effect.of_stopped {t : Turn τ} {s' : Handover τ} (he : Effect codes s t s')
    (hr : s.reader.running = false) :
    s'.reader.running = false ∧ (s'.reader.waiting = true →
      s.reader.waiting = true ∧ (s.reader.isFull = false → s'.reader.isFull = false)) := by
  cases he with
  | read hr' hread => exact absurd (hr'.symm.trans hr) (by decide)
  | settle hw hroom => exact ⟨hr, nofun⟩
  | start hp => exact ⟨hr, fun hw => ⟨hw, id⟩⟩
  | key hp hq => exact ⟨hr, fun hw => ⟨hw, fun hroom => room_of_cons hroom hq⟩⟩
  | quit hp hq => exact ⟨hr, fun hw => ⟨hw, fun hroom => room_of_cons hroom hq⟩⟩
  | finish hp hq => exact ⟨hr, fun hw => ⟨hw, id⟩⟩
  | idle hread => exact ⟨hr, fun hw => ⟨hw, id⟩⟩

/-- A poll makes room. -/
theorem Effect.room_of_take {s' : Handover τ} (he : Effect codes s .take s') (hi : s.Inv m)
    (hp : s.polling.isSome ∨ s.reader.isFull = false) : s'.reader.isFull = false := by
  have hle := hi.length_le
  cases he with
  | key _ hq =>
    rw [hq] at hle
    exact decide_eq_false (Nat.not_le.2 hle)
  | quit _ hq =>
    rw [hq] at hle
    exact decide_eq_false (Nat.not_le.2 hle)
  | finish _ hq =>
    have hnil : s.reader.queue = [] := hq
    show decide (queueCapacity ≤ s.reader.queue.length) = false
    rw [hnil]
    rfl
  | idle _ _ hidle => exact hp.resolve_left (by simp [hidle rfl])

theorem Effect.waiting_of_settle {s' : Handover τ} (he : Effect codes s .settle s')
    (hroom : s.reader.isFull = false) : s'.reader.waiting = false := by
  cases he with
  | settle => rfl
  | idle _ hs _ =>
    by_contra hw
    have hfull := hs rfl (Bool.not_eq_false _ ▸ hw)
    exact Bool.false_ne_true (hroom.symm.trans hfull)

theorem Effect.waiting_of_take {s' : Handover τ} (he : Effect codes s .take s') :
    s'.reader.waiting = s.reader.waiting := by
  cases he <;> rfl

/-- A poll goes on, and a request to quit keeps its place, or it ends with an answer. -/
theorem Effect.of_polling {t : Turn τ} {s' : Handover τ} (he : Effect codes s t s')
    (hp : s.polling.isSome) :
    (s'.polling.isSome ∧ s'.answers = s.answers ∧ (.quit ∈ s.queue → .quit ∈ s'.queue)) ∨
      ∃ b, s'.answers = s.answers ++ [b] ∧ (b = true ↔ .quit ∈ s.queue) := by
  cases he with
  | read hr hread =>
    refine Or.inl ⟨hp, rfl, fun hmem => ?_⟩
    rcases hread.queue_eq with hsame | ⟨_, item, happend⟩
    · rwa [queue_withReader, hsame]
    · rw [queue_withReader, happend]
      exact List.mem_append_left _ hmem
  | settle => exact Or.inl ⟨hp, rfl, fun hmem => List.mem_append_left _ hmem⟩
  | start => exact Or.inl ⟨rfl, rfl, id⟩
  | key _ hq =>
    refine Or.inl ⟨hp, rfl, fun hmem => ?_⟩
    rw [hq] at hmem
    exact (List.mem_cons.1 hmem).resolve_left nofun
  | quit _ hq => exact Or.inr ⟨true, rfl, by simp [hq]⟩
  | finish _ hq => exact Or.inr ⟨false, rfl, by simp [hq]⟩
  | idle => exact Or.inl ⟨hp, rfl, id⟩

theorem Effect.answers_prefix {t : Turn τ} {s' : Handover τ} (he : Effect codes s t s') :
    s.answers <+: s'.answers := by
  cases he with
  | quit => exact List.prefix_append _ _
  | finish => exact List.prefix_append _ _
  | _ => exact List.prefix_rfl

theorem Inv.stopped_of_delivered (hi : s.Inv m) (hd : s.Delivered) :
    s.reader.running = false ∧ s.reader.waiting = false := by
  have hcount : 1 ≤ s.queue.count .quit + s.answers.count true := by
    rcases hd with hmem | hmem
    · exact Nat.le_add_right_of_le (List.count_pos_iff.2 hmem)
    · exact Nat.le_add_left_of_le (List.count_pos_iff.2 hmem)
  have hle := hi.running_add_le
  unfold quits at hle
  exact ⟨Bool.toNat_eq_zero.1 (by omega), Bool.toNat_eq_zero.1 (by omega)⟩

theorem delivered_of_quits (hw : s.reader.waiting = false) (hq : 1 ≤ s.quits) : s.Delivered := by
  rw [quits, hw, Bool.toNat_false] at hq
  by_cases hcount : s.queue.count .quit = 0
  · exact Or.inr (List.count_pos_iff.1 (by omega))
  · exact Or.inl (List.count_pos_iff.1 (Nat.pos_of_ne_zero hcount))

end Turn

end Handover

end Chip8
