import Chip8.Proofs.Interpreter.Tracing
import Chip8.Proofs.Text.Marks

/-!
# Crash reports

A crash report loses nothing of what it shows.  Its fields are told apart by the marks between them,
although some have no fixed width and the stack may be of any depth (`crashReport_lossless`).
-/

namespace Chip8

open Text

/-- Whether a text is one that words are listed by. -/
def IsMnemonic (text : String) : Prop := text = unknownMnemonic ∨ ∃ c : Opcode, text = c.disassemble

theorem IsMnemonic.oneLine {text : String} (h : IsMnemonic text) : OneLine text := by
  rcases h with rfl | ⟨c, rfl⟩
  · decide
  · exact c.oneLine_disassemble

theorem Opcode.full_injective {c c' : Opcode} (h : c.full = c'.full) : c = c' := by
  cases c
  cases c'
  exact congrArg Opcode.mk (UInt16.toNat_inj.1 h)

namespace Interpreter

theorem registerText_inj {v v' : Vector UInt8 16} (h : registerText v = registerText v') : v = v' := by
  have hlength : v.toList.reverse.length = v'.toList.reverse.length := by simp
  exact Vector.toList_inj.1 (List.reverse_injective (join_hex_inj hlength h))

theorem blank_notMem_registerText (v : Vector UInt8 16) : ' ' ∉ (registerText v).toList := by
  simp only [registerText, String.toList_join, List.mem_flatMap, List.mem_map, not_exists, not_and]
  rintro _ ⟨b, -, rfl⟩
  exact blank_notMem_hex 2 b.toNat

theorem stackText_cons (n : Int) (entries : List Int) :
    stackText (n :: entries) = " 0x" ++ (hex 3 n ++ markedNumbers " 0x" 3 entries) :=
  markedNumbers_cons " 0x" 3 n entries

/-- No entry looks like the word for an empty stack. -/
theorem stackText_cons_ne (n : Int) (entries : List Int) :
    stackText (n :: entries) ≠ stackText [] := by
  intro h
  rw [stackText_cons] at h
  -- Both begin with a blank; `0` and `(` stand behind it.
  have hsecond := congrArg (·.toList[1]?) h
  simp [stackText] at hsecond

theorem stackText_inj {entries entries' : List Int} (h : stackText entries = stackText entries') :
    entries = entries' := by
  cases entries with
  | nil =>
    cases entries' with
    | nil => rfl
    | cons n' entries' => exact absurd h.symm (stackText_cons_ne n' entries')
  | cons n entries =>
    cases entries' with
    | nil => exact absurd h (stackText_cons_ne n entries)
    | cons n' entries' => exact markedNumbers_inj (by decide) h

variable {ρ ρ' : Type} {s : Interpreter ρ} {s' : Interpreter ρ'} {text text' rest rest' : String}
  {n n' : Nat}

/-- The fields of a trace line up to the mnemonic end at the blanks behind them. -/
theorem traceLine_fields (h : s.traceLine text ++ rest = s'.traceLine text' ++ rest') :
    s.machine.registers.v = s'.machine.registers.v ∧ s.machine.registers.i = s'.machine.registers.i ∧
      s.machine.registers.dt = s'.machine.registers.dt ∧
      s.machine.registers.st = s'.machine.registers.st ∧ s.fetchedFrom = s'.fetchedFrom ∧
      s.word = s'.word ∧ text ++ rest = text' ++ rest' := by
  unfold traceLine at h
  simp only [String.append_assoc] at h
  have h := (String.append_right_inj _).1 h
  obtain ⟨hv, h⟩ := field_inj " I: 0x" (by decide) (blank_notMem_registerText _)
    (blank_notMem_registerText _) h
  obtain ⟨hi, h⟩ := hex_field_inj " DT: 0x" (by decide) h
  obtain ⟨hdt, h⟩ := hex_field_inj " ST: 0x" (by decide) h
  obtain ⟨hst, h⟩ := hex_field_inj " PC: 0x" (by decide) h
  obtain ⟨hfrom, h⟩ := hex_field_inj " OP: 0x" (by decide) h
  obtain ⟨hword, h⟩ := hex_field_inj " IN: " (by decide) h
  exact ⟨registerText_inj hv, hi, hdt, hst, hfrom, Opcode.full_injective (Int.ofNat.inj hword), h⟩

/-- A line of a trace tells the registers and the word that it was printed for. -/
theorem traceText_inj {r r' : Registers} {w w' : Opcode} (h : traceText r w = traceText r' w') :
    r = r' ∧ w = w' := by
  -- the line is that of any state with these registers that has just fetched the word
  let start (r : Registers) : Interpreter Cycle :=
    let s := new Dialect.modern false ⟨[0], 0⟩
    { s with machine := { s.machine with registers := r } }
  have hline (r : Registers) (w : Opcode) :
      ((start r).fetched w).traceLine w.disassemble ++ "" = traceText r w :=
    String.append_empty.trans (traceLine_fetched (start r) w)
  obtain ⟨hv, hi, hdt, hst, hpc, hword, -⟩ :=
    traceLine_fields ((hline r w).trans (h.trans (hline r' w').symm))
  have hsame : r = r' := by
    rw [Registers.mk.injEq]
    exact ⟨hv, hpc, hi, hdt, hst⟩
  exact ⟨hsame, hword⟩

/-- The mnemonic and the depth end at the line breaks behind them. -/
theorem crashReport_fields (ht : OneLine text) (ht' : OneLine text')
    (h : text ++ ("\nSP: " ++ (toString n ++ ("\nStack:" ++ rest))) =
      text' ++ ("\nSP: " ++ (toString n' ++ ("\nStack:" ++ rest')))) : text = text' ∧ rest = rest' := by
  obtain ⟨htext, h⟩ := field_inj "\nSP: " (by decide) ht ht' h
  exact ⟨htext, (field_inj "\nStack:" (by decide) (oneLine_toString n) (oneLine_toString n') h).2⟩

/-- A crash report loses nothing: two states have the same report iff they agree on all that it shows. -/
theorem crashReport_lossless (s : Interpreter ρ) (s' : Interpreter ρ') (ht : IsMnemonic text)
    (ht' : IsMnemonic text') :
    s.crashReport text = s'.crashReport text' ↔
      s.machine.registers.v = s'.machine.registers.v ∧ s.machine.registers.i = s'.machine.registers.i ∧
      s.machine.registers.dt = s'.machine.registers.dt ∧
      s.machine.registers.st = s'.machine.registers.st ∧ s.fetchedFrom = s'.fetchedFrom ∧
      s.word = s'.word ∧ text = text' ∧ s.machine.stack.depth = s'.machine.stack.depth ∧
      s.machine.stack.entries = s'.machine.stack.entries := by
  constructor
  · intro h
    unfold crashReport at h
    simp only [String.append_assoc] at h
    obtain ⟨hv, hi, hdt, hst, hfrom, hword, h⟩ := traceLine_fields h
    obtain ⟨htext, h⟩ := crashReport_fields ht.oneLine ht'.oneLine h
    -- The depth is the number of entries, so its own digits are not needed.
    have hentries := stackText_inj h
    have hdepth : s.machine.stack.depth = s'.machine.stack.depth := by
      rw [← CallStack.length_entries, hentries, CallStack.length_entries]
    exact ⟨hv, hi, hdt, hst, hfrom, hword, htext, hdepth, hentries⟩
  · rintro ⟨hv, hi, hdt, hst, hfrom, hword, rfl, hdepth, hentries⟩
    unfold crashReport traceLine
    simp only [hv, hi, hdt, hst, hfrom, hword, hdepth, hentries]

/-- Inside a subroutine a report shows neither keys nor cells, but it changes when the return runs. -/
theorem crashReport_lossless_inside_call :
    let s := (new Dialect.modern false (Cycle.mk [0] 0)).after [.loadRom [0x22, 0x02, 0x00, 0xEE], .tick]
    let t := s.after [.setKey 3 true, .setLit 1 1 true]
    s.crashReport s.word.disassemble = t.crashReport t.word.disassemble ∧
      s.crashReport s.word.disassemble ≠ s.tick.after.crashReport s.tick.after.word.disassemble := by
  intro s t
  constructor
  · exact (crashReport_lossless s t (Or.inr ⟨s.word, rfl⟩) (Or.inr ⟨t.word, rfl⟩)).2 (by decide +kernel)
  · intro h
    obtain ⟨-, -, -, -, hfrom, -⟩ :=
      (crashReport_lossless s s.tick.after (Or.inr ⟨s.word, rfl⟩) (Or.inr ⟨_, rfl⟩)).1 h
    exact absurd hfrom (by decide +kernel)

end Interpreter

end Chip8
