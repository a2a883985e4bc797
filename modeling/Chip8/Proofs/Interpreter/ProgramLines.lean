import Chip8.Proofs.Interpreter.Footprint
import Chip8.Proofs.Interpreter.Loading
import Chip8.Proofs.Interpreter.Tracing
import Chip8.Proofs.Text.Entries
import Chip8.Proofs.Text.Marks

/-!
# The lines of a listing

The listing of the program area has one line for each address where a word can begin, in order: the
address and the mnemonic of the two bytes there (`Interpreter.lineFor`).  No mnemonic breaks a line, so
the listing is split into these lines again (`Interpreter.splitOn_listing`).  A line depends on its two
bytes only, and an operation other than a reset changes only bytes that it stores
(`Interpreter.byteAt_perform_of_not_stores`), so it changes only lines at a stored byte or just before
one.  The main statement is `Interpreter.listing_line_by_line`.
-/

namespace Chip8

open Text

namespace Interpreter

variable {ρ : Type}

/-- The line of a listing for an address of a memory. -/
def lineFor (m : Memory) (address : Int) : String :=
  "0x" ++ hex 4 address ++ ": " ++ (Opcode.ofBytes [m.byteAt address, m.byteAt (address + 1)]).disassemble

/-- The address that a line of a listing begins with. -/
def lineAddress (line : List Char) : Nat := value ((line.drop 2).take 4)

/-- Whether an operation stores a byte at an address: the words `Fx33` and `Fx55` store from the index
register on, and a program that fits is stored from `0x200` on. -/
def Stores (s : Interpreter ρ) : Operation → Int → Prop
  | .tick, a => ∃ w, s.fetch = .ok w ∧ s.machine.registers.i ≤ a ∧
      ((w.HasByte 0xF 0x33 ∧ a < s.machine.registers.i + 3) ∨
        (w.HasByte 0xF 0x55 ∧ a ≤ s.machine.registers.i + w.x.val))
  | .loadRom rom, a => rom.length ≤ 3584 ∧ 0x200 ≤ a ∧ a < 0x200 + rom.length
  | _, _ => False

/-! ### One line -/

theorem oneLine_lineFor (m : Memory) (address : Int) : OneLine (lineFor m address) := by
  unfold lineFor
  simp only [oneLine_append, oneLine_hex, Opcode.oneLine_disassemble, and_true]
  decide

/-- A line is known to begin with its address, in four digits. -/
theorem lineAddress_lineFor (m : Memory) {address : Nat} (h : address < 65536) :
    lineAddress (lineFor m address).toList = address := by
  have hdigits : (hexChars 4 address).length = 4 := length_hexChars (by decide) h
  have htake : ((lineFor m address).toList.drop 2).take 4 = hexChars 4 address := by
    simp only [lineFor, hex, String.toList_append, String.toList_ofList, List.append_assoc]
    exact List.take_left' hdigits
  rw [lineAddress, htake, value_hexChars]

theorem lineFor_congr {m m' : Memory} {address : Int} (h : m.byteAt address = m'.byteAt address)
    (h' : m.byteAt (address + 1) = m'.byteAt (address + 1)) : lineFor m address = lineFor m' address := by
  rw [lineFor, lineFor, h, h']

variable {s : Interpreter ρ}

theorem listingLine_of_le {address : Int} (h₀ : 0 ≤ address)
    (h : address + 2 ≤ s.machine.memory.size) :
    s.listingLine address = .ok (lineFor s.machine.memory address) := by
  rw [listingLine, disassemble_of_ok (wordAt_of_le h₀ h)]
  rfl

/-! ### All lines -/

/-- The lines of a listing of a memory, as characters. -/
def linesOf (m : Memory) : List (List Char) := listingAddresses.map fun address => (lineFor m address).toList

theorem listingAddresses_eq :
    listingAddresses = (List.range 3583).map fun (k : Nat) => (0x200 : Int) + k :=
  rfl

theorem length_linesOf (m : Memory) : (linesOf m).length = 3583 := by
  rw [linesOf, listingAddresses_eq, List.length_map, List.length_map, List.length_range]

theorem getElem?_linesOf (m : Memory) {k : Nat} (h : k < 3583) :
    (linesOf m)[k]? = some (lineFor m ((0x200 : Int) + k)).toList := by
  rw [linesOf, listingAddresses_eq, List.getElem?_map, List.getElem?_map, List.getElem?_range h]
  rfl

theorem map_lineAddress_linesOf (m : Memory) :
    (linesOf m).map lineAddress = List.range' 0x200 3583 := by
  rw [linesOf, listingAddresses_eq, List.map_map, List.map_map, List.range'_eq_map_range]
  apply List.map_congr_left
  intro k hk
  have hlt : k < 3583 := List.mem_range.1 hk
  have haddress : (0x200 : Int) + k = ((0x200 + k : Nat) : Int) := by omega
  rw [Function.comp_apply, Function.comp_apply, haddress]
  exact lineAddress_lineFor m (by omega)

/-- A line that differs in two memories has a byte that differs, at its address or just behind it. -/
theorem exists_byteAt_ne {m m' : Memory} {k : Nat} (h : (linesOf m)[k]? ≠ (linesOf m')[k]?) :
    ∃ a : Int, m.byteAt a ≠ m'.byteAt a ∧ ((0x200 : Int) + k = a - 1 ∨ (0x200 : Int) + k = a) := by
  have hk : k < 3583 := by
    by_contra hge
    refine h ?_
    rw [List.getElem?_eq_none (by rw [length_linesOf]; omega),
      List.getElem?_eq_none (by rw [length_linesOf]; omega)]
  by_contra hnone
  push Not at hnone
  refine h ?_
  have hbyte : m.byteAt (0x200 + k) = m'.byteAt (0x200 + k) := by
    by_contra hne
    exact (hnone _ hne).2 rfl
  have hnext : m.byteAt (0x200 + k + 1) = m'.byteAt (0x200 + k + 1) := by
    by_contra hne
    exact (hnone _ hne).1 (by omega)
  rw [getElem?_linesOf m hk, getElem?_linesOf m' hk, lineFor_congr hbyte hnext]

/-- A machine of standard size is listed line by line, and never refused. -/
theorem listing_eq (h : s.machine.WellFormed) :
    s.listing = .ok ("\n".intercalate (listingAddresses.map (lineFor s.machine.memory))) := by
  have hlines : s.listingLines = .ok (listingAddresses.map (lineFor s.machine.memory)) := by
    rw [listingLines, mapM_eq_ok_iff, List.forall₂_map_right_iff, List.forall₂_same]
    intro address haddress
    rw [listingAddresses_eq] at haddress
    obtain ⟨k, hk, rfl⟩ := List.mem_map.1 haddress
    have hlt : k < 3583 := List.mem_range.1 hk
    have hsize := h.memory_size
    exact listingLine_of_le (by omega) (by omega)
  rw [listing, hlines]
  rfl

/-- A listing is split into its lines again, for none of them has a line break in it. -/
theorem splitOn_listing (m : Memory) :
    ("\n".intercalate (listingAddresses.map (lineFor m))).toList.splitOn '\n' = linesOf m := by
  have hne : listingAddresses.map (lineFor m) ≠ [] := by
    intro hnil
    have hlength := congrArg List.length hnil
    rw [listingAddresses_eq, List.length_map, List.length_map, List.length_range] at hlength
    cases hlength
  rw [splitOn_intercalate rfl hne, linesOf, List.map_map]
  · rfl
  · intro line hline
    obtain ⟨address, -, rfl⟩ := List.mem_map.1 hline
    exact oneLine_lineFor m address

/-! ### States and operations -/

variable [NumberSource ρ]

theorem exists_listing (h : s.Reachable) :
    ∃ text, s.answer .listing = .ok (.text text) ∧
      text.toList.splitOn '\n' = linesOf s.machine.memory := by
  refine ⟨_, ?_, splitOn_listing s.machine.memory⟩
  rw [answer, listing_eq h.wellFormed]
  rfl

/-- An operation other than a reset leaves the bytes as they are where it stores none. -/
theorem byteAt_perform_of_not_stores (h : s.machine.WellFormed) {op : Operation} (hr : op ≠ .reset)
    {a : Int} (ha : 0 ≤ a) (hs : ¬s.Stores op a) :
    (s.perform op).after.machine.memory.byteAt a = s.machine.memory.byteAt a := by
  cases op with
  | reset => exact absurd rfl hr
  | tick =>
    cases hw : s.fetch with
    | error f => rw [perform, tick_of_error hw]
    | ok w =>
      by_contra hne
      exact hs ⟨w, hw, (footprint_tick h hw).2.memory a ha hne⟩
  | loadRom rom =>
    rw [after_loadRom h]
    split
    · next hrom =>
      refine Memory.byteAt_setBlock_of_outside _ ?_
      by_contra hin
      rw [programStart] at hin
      exact hs ⟨hrom, by omega, by omega⟩
    · rfl
  | updateTimers | setSwitch => rfl
  | setKey key pressed =>
    obtain ⟨keypad, hafter⟩ := after_setKey s key pressed
    rw [hafter]
  | setLit x y lit =>
    obtain ⟨frame, -, hafter⟩ := after_setLit h x y lit
    rw [hafter]

/-- After any history the program area is listed in 3583 lines, each with its address and the mnemonic
of the word that begins there, and a line changes only with a byte at its address or the next. -/
theorem listing_line_by_line (dialect : Dialect) (tracing : Bool) (numbers : ρ)
    (history : List Operation) :
    let s := (new dialect tracing numbers).after history
    let m := s.machine.memory
    (∀ w : Opcode, OneLine w.disassemble) ∧
    ∃ text, s.answer .listing = .ok (.text text) ∧
      let lines := text.toList.splitOn '\n'
      (lines.length = 3583 ∧ lines.map lineAddress = List.range' 0x200 3583) ∧
      (∀ k : Nat, k < 3583 → ∃ w : Opcode,
        w.full = 256 * (m.byteAt (0x200 + k)).toNat + (m.byteAt (0x201 + k)).toNat ∧
        (hex 4 (0x200 + k)).length = 4 ∧
        lines[k]? = some ("0x" ++ hex 4 (0x200 + k) ++ ": " ++ w.disassemble).toList) ∧
      (∀ u : Interpreter ρ, u.Reachable → ∃ other, u.answer .listing = .ok (.text other) ∧
        ∀ k : Nat, lines[k]? ≠ (other.toList.splitOn '\n')[k]? →
          ∃ a : Int, m.byteAt a ≠ u.machine.memory.byteAt a ∧
            ((0x200 : Int) + k = a - 1 ∨ (0x200 : Int) + k = a)) ∧
      ∀ op, op ≠ .reset → ∃ after, (s.perform op).after.answer .listing = .ok (.text after) ∧
        ∀ k : Nat, lines[k]? ≠ (after.toList.splitOn '\n')[k]? →
          ∃ a : Int, s.Stores op a ∧ ((0x200 : Int) + k = a - 1 ∨ (0x200 : Int) + k = a) := by
  intro s m
  have hs : s.Reachable := ⟨dialect, tracing, numbers, history, rfl⟩
  obtain ⟨text, htext, hsplit⟩ := exists_listing hs
  refine ⟨Opcode.oneLine_disassemble, text, htext, ?_⟩
  rw [hsplit]
  refine ⟨⟨length_linesOf m, map_lineAddress_linesOf m⟩, fun k hk => ?_, fun u hu => ?_, fun op hop => ?_⟩
  · have hnext : (0x200 : Int) + k + 1 = 0x201 + k := by omega
    have hword := Opcode.full_ofBytes_pair (m.byteAt (0x200 + k)) (m.byteAt (0x200 + k + 1))
    refine ⟨_, hword.trans (by rw [hnext]), ?_, getElem?_linesOf m hk⟩
    have haddress : (0x200 : Int) + k = ((0x200 + k : Nat) : Int) := by omega
    rw [← String.length_toList, hex, String.toList_ofList, haddress]
    exact length_hexChars (by decide) (show 0x200 + k < 65536 by omega)
  · obtain ⟨other, hother, hlines⟩ := exists_listing hu
    refine ⟨other, hother, fun k hne => ?_⟩
    rw [hlines] at hne
    exact exists_byteAt_ne hne
  · obtain ⟨after, hafter, hlines⟩ := exists_listing (hs.after [op])
    refine ⟨after, hafter, fun k hne => ?_⟩
    rw [hlines] at hne
    obtain ⟨a, hbyte, hk⟩ := exists_byteAt_ne hne
    refine ⟨a, ?_, hk⟩
    by_contra hstores
    exact hbyte (byteAt_perform_of_not_stores hs.wellFormed hop (by omega) hstores).symm

end Interpreter

end Chip8
