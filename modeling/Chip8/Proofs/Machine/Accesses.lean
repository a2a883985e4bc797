import Chip8.Proofs.Machine.Cuts

/-!
# A bank through accesses in turn

Everything that may be asked of a bank is an `Access`.  One is refused for one of four reasons
(`Memory.Refused`), and a refused one leaves the bank alone.  An accepted one makes the whole bank zero,
stores a block, or only reads (`Memory.effect_of_access`).  So after any history of accesses, a byte of
the bank is what the last accepted access that left something at its address left there, or zero
(`Memory.after_eq_accepted`, `Memory.accesses_all_or_nothing`).
-/

namespace Chip8

namespace Memory

/-- Something asked of a bank. -/
inductive Access
  | resize (size : Int)
  | read (loc : Int)
  | readBlock (loc count : Int)
  | write (loc value : Int)
  | writeBlock (loc : Int) (block : List UInt8)
  | zeroBlock (loc count : Int)
  | clear
deriving DecidableEq

namespace Access

/-- The block that an access stores, with its address. -/
def store? : Access → Option (Int × List UInt8)
  | .write loc value => some (loc, [UInt8.ofNat value.toNat])
  | .writeBlock loc block => some (loc, block)
  | .zeroBlock loc count => some (loc, List.replicate count.toNat 0)
  | _ => none

/-- The address and the number of the bytes that an access asks for. -/
def request? : Access → Option (Int × Int)
  | .read loc => some (loc, 1)
  | .readBlock loc count => some (loc, count)
  | _ => none

/-- The address and the number of the bytes that have to lie in the bank.  A store of no bytes has
none. -/
def span? (a : Access) : Option (Int × Int) :=
  match a.store? with
  | some (loc, block) => if block = [] then none else some (loc, block.length)
  | none => a.request?

/-- The byte that an accepted access leaves at an address, if it leaves one there. -/
def leaves? (loc : Int) : Access → Option UInt8
  | .resize _ | .clear => some 0
  | a => a.store?.bind fun (start, block) => if start ≤ loc then block[(loc - start).toNat]? else none

/-- The size of a bank after an accepted access. -/
def sizeAfter (size : Nat) : Access → Nat
  | .resize n => n.toNat
  | _ => size

end Access

namespace Access

variable {a : Access} {loc start : Int} {block : List UInt8}

theorem span?_of_store {count : Int} (hstore : a.store? = some (start, block))
    (h : a.span? = some (loc, count)) : block ≠ [] ∧ (start, (block.length : Int)) = (loc, count) := by
  unfold span? at h
  rw [hstore] at h
  dsimp only at h
  split at h
  · cases h
  · next hne => exact ⟨hne, Option.some.inj h⟩

theorem leaves?_of_store (hstore : a.store? = some (start, block)) (loc : Int) :
    a.leaves? loc = if start ≤ loc then block[(loc - start).toNat]? else none := by
  cases a with
  | write | writeBlock | zeroBlock =>
    cases hstore
    rfl
  | resize | read | readBlock | clear => cases hstore

theorem store?_of_request {count : Int} (hask : a.request? = some (start, count)) : a.store? = none := by
  cases a with
  | read | readBlock => rfl
  | resize | write | writeBlock | zeroBlock | clear => cases hask

theorem leaves?_of_request {count : Int} (hask : a.request? = some (start, count)) (loc : Int) :
    a.leaves? loc = none := by
  cases a with
  | read | readBlock => rfl
  | resize | write | writeBlock | zeroBlock | clear => cases hask

end Access

/-- The bank after an access and the bytes read, or why the access is refused. -/
def access (m : Memory) : Access → Except Fault (Memory × List UInt8)
  | .resize n => (ofSize n).map (·, [])
  | .read loc => (m.read loc).map fun b => (m, [b])
  | .readBlock loc count => (m.readBlock loc count).map (m, ·)
  | .write loc value => (m.write loc value).map (·, [])
  | .writeBlock loc block => (m.writeBlock loc block).map (·, [])
  | .zeroBlock loc count => (m.zeroBlock loc count).map (·, [])
  | .clear => .ok (m.clear, [])

/-- The bank after an access, refused or not. -/
def perform (m : Memory) (a : Access) : Memory :=
  match m.access a with
  | .ok (after, _) => after
  | .error _ => m

/-- The bank after a history of accesses. -/
def after (m : Memory) (history : List Access) : Memory := history.foldl perform m

/-- The accesses of a history that are not refused. -/
def accepted (m : Memory) : List Access → List Access
  | [] => []
  | a :: history =>
    match m.access a with
    | .ok (after, _) => a :: after.accepted history
    | .error _ => m.accepted history

/-- The byte that accesses left last at an address; a new bank is zero. -/
def lastLeft (loc : Int) (done : List Access) : UInt8 :=
  (done.reverse.findSome? (Access.leaves? loc)).getD 0

/-- Why an access to a bank of a size is refused. -/
inductive Refused (size : Nat) : Access → Fault → Prop
  | outside {a : Access} {loc count : Int} (hspan : a.span? = some (loc, count))
      (hout : loc < 0 ∨ size < loc + count) :
      Refused size a (.outOfRange loc (loc + count - 1) (size - 1))
  | value {loc value : Int} (hin : 0 ≤ loc ∧ loc < size) (hvalue : value < 0 ∨ 255 < value) :
      Refused size (.write loc value) .notAByte
  | negative {n : Int} (hwide : -9223372036854775808 ≤ n) (hneg : n < 0) :
      Refused size (.resize n) .negativeSize
  /-- The size does not fit a machine word. -/
  | wide {n : Int} (hwide : n < -9223372036854775808 ∨ 9223372036854775807 < n) :
      Refused size (.resize n) .sizeTooWide

/-! ### One access -/

section

variable {m : Memory}

theorem check_eq_ite (m : Memory) (loc count : Int) :
    m.check loc count =
      if loc < 0 ∨ m.size < loc + count then .error (.outOfRange loc (loc + count - 1) (m.size - 1))
      else .ok () := by
  rw [check, top]
  congr 1
  exact propext (by omega)

theorem ofSize_eq_ite (n : Int) :
    ofSize n =
      if n < -9223372036854775808 ∨ 9223372036854775807 < n then .error .sizeTooWide
      else if n < 0 then .error .negativeSize else .ok (zeros n.toNat) := by
  have hword : wordSize? n =
      if n < -9223372036854775808 ∨ 9223372036854775807 < n then .error .sizeTooWide else .ok n := by
    rw [wordSize?]
    congr 1
  rw [ofSize, hword]
  split
  · rfl
  · rfl

theorem read_eq_ite (m : Memory) (loc : Int) :
    m.read loc =
      if loc < 0 ∨ m.size < loc + 1 then .error (.outOfRange loc (loc + 1 - 1) (m.size - 1))
      else .ok (m.byteAt loc) := by
  rw [read, check_eq_ite]
  split <;> rfl

theorem writeBlock_eq_ite (m : Memory) (loc : Int) (block : List UInt8) :
    m.writeBlock loc block =
      if block ≠ [] ∧ (loc < 0 ∨ m.size < loc + block.length) then
        .error (.outOfRange loc (loc + block.length - 1) (m.size - 1))
      else .ok (m.setBlock loc.toNat block) := by
  cases block with
  | nil => rfl
  | cons b block =>
    rw [writeBlock, if_neg (by simp), check_eq_ite]
    by_cases hout : loc < 0 ∨ m.size < loc + ((b :: block).length : Int)
    · rw [if_pos hout, if_pos ⟨List.cons_ne_nil b block, hout⟩]
      rfl
    · rw [if_neg hout, if_neg fun h => hout h.2]
      rfl

/-- Clearing bytes is storing zeros. -/
theorem zeroBlock_eq (m : Memory) (loc count : Int) :
    m.zeroBlock loc count = m.writeBlock loc (List.replicate count.toNat 0) := by
  rw [zeroBlock, writeBlock, List.length_replicate]
  by_cases hc : count ≤ 0
  · have hnone : count.toNat = 0 := by omega
    rw [if_pos hc, hnone]
    rfl
  · have hsome : ¬(List.replicate count.toNat (0 : UInt8)).isEmpty = true := by
      rw [List.isEmpty_iff, List.replicate_eq_nil_iff]
      omega
    have hcount : (count.toNat : Int) = count := by omega
    rw [if_neg hc, if_neg hsome, hcount]

/-- Writing a byte is storing a block of one, once the value is seen to be a byte. -/
theorem write_eq_ite (m : Memory) (loc value : Int) :
    m.write loc value =
      if loc < 0 ∨ m.size < loc + 1 then .error (.outOfRange loc (loc + 1 - 1) (m.size - 1))
      else if value < 0 ∨ 255 < value then .error .notAByte
      else .ok (m.setBlock loc.toNat [UInt8.ofNat value.toNat]) := by
  rw [write, check_eq_ite, byte?]
  by_cases hout : loc < 0 ∨ m.size < loc + 1
  · rw [if_pos hout, if_pos hout]
    rfl
  · rw [if_neg hout, if_neg hout]
    by_cases hvalue : value < 0 ∨ 255 < value
    · rw [if_pos hvalue, if_neg (by omega)]
      rfl
    · rw [if_neg hvalue, if_pos (by omega)]
      rfl

theorem access_of_refused {a : Access} {f : Fault} (h : Refused m.size a f) : m.access a = .error f := by
  cases h with
  | @outside _ loc count hspan hout =>
    cases a with
    | resize n => cases hspan
    | read l =>
      cases hspan
      rw [access, read_eq_ite, if_pos hout]
      rfl
    | readBlock l c =>
      cases hspan
      rw [access, readBlock_eq_ite, if_pos hout]
      rfl
    | write l value =>
      cases hspan
      rw [access, write_eq_ite, if_pos (show loc < 0 ∨ (m.size : Int) < loc + 1 from hout)]
      rfl
    | writeBlock l block =>
      obtain ⟨hne, hblock⟩ := Access.span?_of_store rfl hspan
      cases hblock
      rw [access, writeBlock_eq_ite, if_pos ⟨hne, hout⟩]
      rfl
    | zeroBlock l c =>
      obtain ⟨hne, hblock⟩ := Access.span?_of_store rfl hspan
      cases hblock
      rw [access, zeroBlock_eq, writeBlock_eq_ite, if_pos ⟨hne, hout⟩]
      rfl
    | clear => cases hspan
  | value hin hvalue =>
    rw [access, write_eq_ite, if_neg (by omega), if_pos hvalue]
    rfl
  | negative hwide hneg =>
    rw [access, ofSize_eq_ite, if_neg (by omega), if_pos hneg]
    rfl
  | wide hwide =>
    rw [access, ofSize_eq_ite, if_pos hwide]
    rfl

/-- What an access comes to. -/
inductive Outcome (m : Memory) (a : Access) : Prop
  | refused (f : Fault) (fails : m.access a = .error f) (why : Refused m.size a f)
  /-- The whole bank is zero. -/
  | zeroed (leaves : ∀ loc, a.leaves? loc = some 0)
      (answers : m.access a = .ok (zeros (a.sizeAfter m.size), []))
  /-- A block is stored, which lies in the bank unless it is empty. -/
  | stored (loc : Int) (block : List UInt8) (stores : a.store? = some (loc, block))
      (keeps : ∀ size, a.sizeAfter size = size)
      (inside : block = [] ∨ 0 ≤ loc ∧ loc + block.length ≤ m.size)
      (answers : m.access a = .ok (m.setBlock loc.toNat block, []))
  /-- A block in the bank is read. -/
  | answered (loc count : Int) (asks : a.request? = some (loc, count))
      (keeps : ∀ size, a.sizeAfter size = size) (inside : 0 ≤ loc ∧ loc + count ≤ m.size)
      (answers : m.access a =
        .ok (m, (List.range (readLength m.size loc count)).map fun (k : Nat) => m.byteAt (loc + k)))

theorem outcome_writeBlock {a : Access} {loc : Int} {block : List UInt8}
    (hstore : a.store? = some (loc, block)) (hkeeps : ∀ size, a.sizeAfter size = size)
    (haccess : m.access a = (m.writeBlock loc block).map (·, [])) : m.Outcome a := by
  rw [writeBlock_eq_ite] at haccess
  by_cases hout : block ≠ [] ∧ (loc < 0 ∨ m.size < loc + (block.length : Int))
  · rw [if_pos hout] at haccess
    refine .refused _ haccess (.outside ?_ hout.2)
    rw [Access.span?, hstore]
    exact if_neg hout.1
  · rw [if_neg hout] at haccess
    refine .stored loc block hstore hkeeps ?_ haccess
    by_cases hnil : block = []
    · exact Or.inl hnil
    · exact Or.inr (by have := not_and.1 hout hnil; omega)

theorem access_cases (m : Memory) (a : Access) : m.Outcome a := by
  cases a with
  | resize n =>
    have haccess : m.access (.resize n) = (ofSize n).map (·, []) := rfl
    rw [ofSize_eq_ite] at haccess
    split at haccess
    · next hwide => exact .refused _ haccess (.wide hwide)
    · next hwide =>
      split at haccess
      · next hneg => exact .refused _ haccess (.negative (by omega) hneg)
      · exact .zeroed (fun _ => rfl) haccess
  | read loc =>
    have haccess : m.access (.read loc) = (m.read loc).map fun b => (m, [b]) := rfl
    rw [read_eq_ite] at haccess
    split at haccess
    · next hout => exact .refused _ haccess (.outside rfl hout)
    · next hin =>
      refine .answered loc 1 rfl (fun _ => rfl) (by omega) ?_
      have hone : readLength m.size loc 1 = 1 := by
        rw [readLength, if_neg (by omega)]
        rfl
      rw [haccess, hone]
      simp [Except.map]
  | readBlock loc count =>
    have haccess : m.access (.readBlock loc count) = (m.readBlock loc count).map (m, ·) := rfl
    rw [readBlock_eq_ite] at haccess
    split at haccess
    · next hout => exact .refused _ haccess (.outside rfl hout)
    · next hin => exact .answered loc count rfl (fun _ => rfl) (by omega) haccess
  | write loc value =>
    have haccess : m.access (.write loc value) = (m.write loc value).map (·, []) := rfl
    rw [write_eq_ite] at haccess
    split at haccess
    · next hout => exact .refused _ haccess (.outside rfl hout)
    · next hin =>
      split at haccess
      · next hvalue => exact .refused _ haccess (.value (by omega) hvalue)
      · exact .stored loc _ rfl (fun _ => rfl) (Or.inr (by simp only [List.length_singleton]; omega)) haccess
  | writeBlock loc block => exact outcome_writeBlock rfl (fun _ => rfl) rfl
  | zeroBlock loc count =>
    refine outcome_writeBlock rfl (fun _ => rfl) ?_
    rw [← zeroBlock_eq]
    rfl
  | clear => exact .zeroed (fun _ => rfl) rfl

/-- Exactly the accesses with a reason are refused. -/
theorem access_eq_error_iff (m : Memory) (a : Access) (f : Fault) :
    m.access a = .error f ↔ Refused m.size a f := by
  refine ⟨fun h => ?_, access_of_refused⟩
  cases m.access_cases a with
  | refused g fails why =>
    cases fails.symm.trans h
    exact why
  | zeroed _ answers => exact nomatch answers.symm.trans h
  | stored _ _ _ _ _ answers => exact nomatch answers.symm.trans h
  | answered _ _ _ _ _ answers => exact nomatch answers.symm.trans h

/-- What an accepted access leaves at every address, in the bank or past its end. -/
theorem effect_of_access {a : Access} {after : Memory} {bytes : List UInt8}
    (h : m.access a = .ok (after, bytes)) :
    after.size = a.sizeAfter m.size ∧
      ∀ loc, 0 ≤ loc → after.byteAt loc = (a.leaves? loc).getD (m.byteAt loc) := by
  cases m.access_cases a with
  | refused _ fails => exact nomatch fails.symm.trans h
  | zeroed leaves answers =>
    cases answers.symm.trans h
    refine ⟨size_zeros _, fun loc _ => ?_⟩
    rw [byteAt_zeros, leaves, Option.getD_some]
  | stored start block stores keeps inside answers =>
    cases answers.symm.trans h
    refine ⟨by rw [size_setBlock, keeps], fun loc hloc => ?_⟩
    rw [Access.leaves?_of_store stores, byteAt_setBlock]
    by_cases hin : start ≤ loc ∧ (loc - start).toNat < block.length
    · have hne : block ≠ [] := by
        rintro rfl
        exact absurd hin.2 (Nat.not_lt_zero _)
      have hbank := inside.resolve_left hne
      have hoffset : loc.toNat - start.toNat = (loc - start).toNat := by omega
      rw [if_pos (by omega), if_pos hin.1, hoffset, List.getD_eq_getElem?_getD,
        List.getElem?_eq_getElem hin.2, Option.getD_some, Option.getD_some]
    · have hnone : (if start ≤ loc then block[(loc - start).toNat]? else none) = none := by
        split
        · exact List.getElem?_eq_none (by omega)
        · rfl
      -- an empty block may be stored anywhere, also below zero
      rw [hnone, Option.getD_none, if_neg]
      rcases inside with rfl | hbank
      · simp only [List.length_nil]
        omega
      · omega
  | answered start count asks keeps inside answers =>
    cases answers.symm.trans h
    refine ⟨(keeps _).symm, fun loc _ => ?_⟩
    rw [Access.leaves?_of_request asks, Option.getD_none]

/-- A read that is accepted returns the bytes asked for, if their number is not negative. -/
theorem bytes_of_access {a : Access} {after : Memory} {bytes : List UInt8} {loc count : Int}
    (h : m.access a = .ok (after, bytes)) (hask : a.request? = some (loc, count)) (hcount : 0 ≤ count) :
    0 ≤ loc ∧ bytes = (List.range count.toNat).map fun (k : Nat) => m.byteAt (loc + k) := by
  cases m.access_cases a with
  | refused _ fails => exact nomatch fails.symm.trans h
  | zeroed leaves =>
    have hleaves := leaves 0
    rw [Access.leaves?_of_request hask] at hleaves
    cases hleaves
  | stored _ _ stores => exact nomatch (Access.store?_of_request hask).symm.trans stores
  | answered start _ asks _ inside answers =>
    cases asks.symm.trans hask
    cases answers.symm.trans h
    refine ⟨inside.1, ?_⟩
    rw [readLength, if_neg (by omega)]

/-! ### Accesses in turn -/

theorem perform_of_ok {a : Access} {after : Memory} {bytes : List UInt8}
    (h : m.access a = .ok (after, bytes)) : m.perform a = after := by
  rw [perform, h]

theorem perform_of_error {a : Access} {f : Fault} (h : m.access a = .error f) : m.perform a = m := by
  rw [perform, h]

theorem after_cons (m : Memory) (a : Access) (history : List Access) :
    m.after (a :: history) = (m.perform a).after history := rfl

theorem accepted_of_ok {a : Access} {after : Memory} {bytes : List UInt8}
    (h : m.access a = .ok (after, bytes)) (history : List Access) :
    m.accepted (a :: history) = a :: after.accepted history := by
  rw [accepted, h]

theorem accepted_of_error {a : Access} {f : Fault} (h : m.access a = .error f)
    (history : List Access) : m.accepted (a :: history) = m.accepted history := by
  rw [accepted, h]

/-- After a history, the size and the bytes are what the accepted accesses made of them. -/
theorem after_eq_accepted (m : Memory) (history : List Access) :
    (m.after history).size = (m.accepted history).foldl (fun size a => a.sizeAfter size) m.size ∧
      ∀ loc, 0 ≤ loc → (m.after history).byteAt loc =
        ((m.accepted history).reverse.findSome? (Access.leaves? loc)).getD (m.byteAt loc) := by
  induction history generalizing m with
  | nil => exact ⟨rfl, fun _ _ => rfl⟩
  | cons a history ih =>
    rw [after_cons]
    cases haccess : m.access a with
    | error f =>
      rw [perform_of_error haccess, accepted_of_error haccess]
      exact ih m
    | ok result =>
      obtain ⟨next, bytes⟩ := result
      obtain ⟨hsize, hbyte⟩ := effect_of_access haccess
      obtain ⟨hsizes, hbytes⟩ := ih next
      rw [perform_of_ok haccess, accepted_of_ok haccess]
      refine ⟨by rw [hsizes, hsize, List.foldl_cons], fun loc hloc => ?_⟩
      rw [hbytes loc hloc, hbyte loc hloc, List.reverse_cons, List.findSome?_append, Option.getD_or,
        List.findSome?_singleton]

end

/-- In any history of a new bank, an access is refused exactly for the reasons given and then changes
nothing, and every byte read was last left there by an accepted access, or is zero. -/
theorem accesses_all_or_nothing {n : Int} {new : Memory} (hnew : ofSize n = .ok new)
    (history : List Access) :
    let m := new.after history
    let done := new.accepted history
    (new.size = n ∧ m.size = done.foldl (fun size a => a.sizeAfter size) new.size ∧ m.top = m.size - 1) ∧
      (∀ loc, 0 ≤ loc → m.byteAt loc = lastLeft loc done) ∧
      (∀ a f, m.access a = .error f ↔ Refused m.size a f) ∧
      (∀ a f, Refused m.size a f → m.perform a = m) ∧
      (∀ a after bytes, m.access a = .ok (after, bytes) →
        m.perform a = after ∧ after.size = a.sizeAfter m.size ∧
          (∀ loc, 0 ≤ loc → after.byteAt loc = (a.leaves? loc).getD (m.byteAt loc)) ∧
          ∀ loc count, a.request? = some (loc, count) → 0 ≤ count →
            bytes = (List.range count.toNat).map fun (k : Nat) => lastLeft (loc + k) done) ∧
      ∀ loc, m.access (.writeBlock loc []) = .ok (m, []) ∧
        ∀ count ≤ 0, m.access (.zeroBlock loc count) = .ok (m, []) := by
  intro m done
  obtain ⟨hzeros, hn⟩ : new = zeros n.toNat ∧ 0 ≤ n := by
    rw [ofSize_eq_ite] at hnew
    split at hnew
    · cases hnew
    · split at hnew
      · cases hnew
      · cases hnew
        exact ⟨rfl, by omega⟩
  obtain ⟨hsize, hbytes⟩ := new.after_eq_accepted history
  have hlast (loc : Int) (hloc : 0 ≤ loc) : m.byteAt loc = lastLeft loc done := by
    have hzero : new.byteAt loc = 0 := by rw [hzeros, byteAt_zeros]
    show (new.after history).byteAt loc = _
    rw [hbytes loc hloc, hzero]
    rfl
  refine ⟨⟨?_, hsize, rfl⟩, hlast, m.access_eq_error_iff, fun a f h => ?_, fun a after bytes h => ?_,
    fun loc => ⟨rfl, fun count hcount => ?_⟩⟩
  · rw [hzeros, size_zeros]
    omega
  · exact perform_of_error (access_of_refused h)
  · obtain ⟨hafter, hleft⟩ := effect_of_access h
    refine ⟨perform_of_ok h, hafter, hleft, fun loc count hask hcount => ?_⟩
    obtain ⟨hloc, hread⟩ := bytes_of_access h hask hcount
    rw [hread]
    exact List.map_congr_left fun k _ => hlast (loc + k) (by omega)
  · rw [access, zeroBlock, if_pos hcount]
    rfl

/-- A bank of four bytes: what is refused between the accepted accesses leaves nothing behind. -/
theorem accesses_all_or_nothing_of_refusals :
    let history : List Access := [.writeBlock 0 [1, 2, 3, 4], .writeBlock 2 [7, 7, 7], .write 4 7,
      .write 1 256, .resize (-1), .zeroBlock 3 2, .zeroBlock 2 2, .write 0 9]
    ofSize 4 = .ok (zeros 4) ∧
      (zeros 4).accepted history = [.writeBlock 0 [1, 2, 3, 4], .zeroBlock 2 2, .write 0 9] ∧
      ∀ after bytes, ((zeros 4).after history).access (.readBlock 0 4) = .ok (after, bytes) →
        bytes = [9, 2, 0, 0] := by
  intro history
  have hnew : ofSize 4 = .ok (zeros 4) := rfl
  have haccepted : (zeros 4).accepted history =
      [.writeBlock 0 [1, 2, 3, 4], .zeroBlock 2 2, .write 0 9] := rfl
  refine ⟨hnew, haccepted, fun after bytes h => ?_⟩
  obtain ⟨-, -, -, -, haccess, -⟩ := accesses_all_or_nothing hnew history
  rw [(haccess _ _ _ h).2.2.2 0 4 rfl (by decide), haccepted]
  rfl

/-- A size below the machine words is refused as too wide, not as negative. -/
theorem ofSize_of_wide_negative :
    ofSize (-9223372036854775809) = .error .sizeTooWide ∧
      ¬∀ n < 0, ofSize n = .error .negativeSize := by
  have hwide : ofSize (-9223372036854775809) = .error .sizeTooWide := rfl
  refine ⟨hwide, fun h => ?_⟩
  exact nomatch hwide.symm.trans (h (-9223372036854775809) (by decide))

end Memory

end Chip8
