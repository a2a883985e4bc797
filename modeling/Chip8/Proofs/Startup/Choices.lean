import Chip8.Proofs.Interpreter.Positions
import Chip8.Proofs.Startup.Spelling
import Chip8.Startup.CommandLine

/-!
# From the command line to the switches

A command line that names a file and chooses a dialect and positions of switches, in any order and any
number of times, is read without a mistake (`CommandLine.parse_choices`).  The dialect it comes to is
`CommandLine.chosen`: the last dialect named, with every switch that was set where it was set last
(`CommandLine.ofOptions_choices`).  The interpreter that is started has it in force, and returns to it
with every reset (`CommandLine.choices_in_force`).
-/

namespace Chip8

/-! ### Options set one after another -/

namespace Options

/-- The options with values set in turn. -/
def setAll (o : Options) (entries : List (OptionName × Setting)) : Options :=
  entries.foldl (fun o entry => o.set entry.1 entry.2) o

/-- The values that are set for an option. -/
def valuesOf (entries : List (OptionName × Setting)) (name : OptionName) : List Setting :=
  entries.filterMap fun entry => if entry.1 = name then some entry.2 else .none

/-- The last value counts. -/
theorem setAll_apply (o : Options) (entries : List (OptionName × Setting)) (name : OptionName) :
    o.setAll entries name = (valuesOf entries name).getLast?.or (o name) := by
  induction entries generalizing o with
  | nil => rfl
  | cons entry entries ih =>
    show (o.set entry.1 entry.2).setAll entries name = _
    rw [ih, valuesOf, valuesOf, List.filterMap_cons]
    by_cases hname : entry.1 = name
    · subst hname
      rw [set_self, if_pos rfl, List.getLast?_cons]
      cases (List.filterMap _ entries).getLast? <;> rfl
    · rw [set_of_ne o entry.2 (Ne.symm hname), if_neg hname]

theorem get_of_some {o : Options} {name : OptionName} {value : Setting} (h : o name = some value) :
    o.get name = .ok value := by
  rw [get, h]

end Options

namespace Dialect

/-- Each switch is put to what its option says, if it says anything. -/
theorem overrideAll_eq {o : Options} {value : Switch → Setting}
    (h : ∀ q, o (.switch q) = some (value q)) (d : Dialect) (switches : List Switch) :
    overrideAll o d switches =
      .ok (d.override fun q => if q ∈ switches then (value q).toChoice else none) := by
  induction switches generalizing d with
  | nil => rfl
  | cons s switches ih =>
    rw [overrideAll, Options.get_of_some (h s)]
    show overrideAll o _ switches = _
    rw [ih]
    congr 1
    funext q
    by_cases hq : q ∈ switches
    · simp only [override, if_pos hq, if_pos (List.mem_cons_of_mem s hq)]
      cases hchoice : (value q).toChoice with
      | some on => rfl
      | none =>
        by_cases hs : q = s
        · subst hs
          simp only [hchoice]
        · cases (value s).toChoice with
          | none => rfl
          | some on => exact set_of_ne d on hs
    · by_cases hs : q = s
      · subst hs
        simp only [override, if_neg hq, List.mem_cons_self, if_true]
        cases (value q).toChoice with
        | none => rfl
        | some on => exact set_self d q on
      · simp only [override, if_neg hq, List.mem_cons, hs, false_or, Option.getD_none]
        cases (value s).toChoice with
        | none => rfl
        | some on => exact set_of_ne d on hs

theorem ofSetting_text {name : String} {d : Dialect} (h : ofName? name = some d) :
    ofSetting (.text name) = .ok d := by
  have hne : name ≠ "" := by
    rintro rfl
    exact nomatch h.symm.trans (show ofName? "" = none by decide +kernel)
  have htrue : (Setting.text name).isTrue = true := bne_iff_ne.2 hne
  have hname : (Setting.text name).toName = .ok name := rfl
  rw [ofSetting, if_pos htrue, hname]
  simp only [bind, Except.bind, h]
  rfl

theorem ofOptions_eq {o : Options} {arch : Setting} {value : Switch → Setting} {d : Dialect}
    (harch : o .arch = some arch) (hd : ofSetting arch = .ok d)
    (h : ∀ q, o (.switch q) = some (value q)) :
    ofOptions o = .ok (d.override fun q => (value q).toChoice) := by
  unfold ofOptions
  rw [Options.get_of_some harch]
  show (ofSetting arch).bind (fun d => overrideAll o d Switch.all) = _
  rw [hd]
  show overrideAll o d Switch.all = _
  rw [overrideAll_eq h]
  simp only [Switch.mem_all, if_true]

end Dialect

namespace CommandLine

open Arguments Text

/-! ### Choices and how they are written -/

/-- What an option chooses: the dialect to start from, or the position of a switch. -/
inductive Choice
  | dialect (d : Dialect)
  | switch (q : Switch) (on : Bool)

namespace Choice

/-- The option that makes a choice. -/
def name : Choice → OptionName
  | dialect _ => .arch
  | switch q _ => .switch q

/-- The values of the option that makes a choice. -/
def values : Choice → Values
  | dialect _ => .oneOf (Dialect.named.map (·.1))
  | switch _ _ => .oneOfIntegers [0, 1]

/-- How the option that makes a choice looks. -/
def form (c : Choice) : Form Request :=
  match c with
  | dialect _ => valued (some 'a') c.name c.values
  | switch _ _ => valued none c.name c.values

/-- Whether a text is a value that makes a choice: the name of the dialect, or an integer that is one for
on and zero for off. -/
def Takes : Choice → String → Prop
  | dialect d, value => Dialect.ofName? value = some d
  | switch _ on, value => integer? .ten value.toList = some (if on then 1 else 0)

/-- What a choice puts into the options. -/
def setting : Choice → String → Setting
  | dialect _, value => .text value
  | switch _ on, _ => .integer (if on then 1 else 0)

/-- The dialect that is chosen, if one is. -/
def dialect? : Choice → Option Dialect
  | dialect d => some d
  | switch _ _ => none

/-- The position that is chosen for a switch, if one is. -/
def position? (q : Switch) : Choice → Option Bool
  | dialect _ => none
  | switch q' on => if q' = q then some on else none

end Choice

/-- One choice on the command line, in one of the ways to write it. -/
structure Occurrence where
  choice : Choice
  value : String
  args : List String
  takes : choice.Takes value
  written : Written forms choice.form value.toList (args.map String.toList)

/-- The dialect that choices come to: the last one named, with every switch that was set where it was set
last. -/
def chosen (choices : List Choice) : Dialect :=
  ((choices.filterMap Choice.dialect?).getLast?.getD .modern).override fun q =>
    (choices.filterMap (Choice.position? q)).getLast?

/-! ### Reading choices -/

theorem clear_forms : Clear forms where
  long_nodup := by decide +kernel
  equals_notMem := by decide +kernel
  short_unique := by decide +kernel
  short_plain := by decide +kernel

theorem Choice.form_mem (c : Choice) : c.form ∈ forms ∧ c.form.takesValue = true := by
  cases c with
  | dialect d => exact ⟨by simp [forms, form, name, values], rfl⟩
  | switch q on =>
    have hform : (switch q on).form = switchForm q := rfl
    refine ⟨List.mem_append_left _ (List.mem_append_right _ ?_), rfl⟩
    exact hform ▸ List.mem_map_of_mem q.mem_all

theorem Choice.setting?_of_takes {c : Choice} {value : String} (h : c.Takes value) :
    c.values.setting? value.toList = some (c.setting value) := by
  cases c with
  | dialect d =>
    have hmem : value ∈ Dialect.named.map (·.1) := by
      obtain ⟨front, back, hnamed, -⟩ := List.lookup_eq_some_iff.1 h
      rw [hnamed]
      simp
    have hmark : value.toList ≠ mark := by
      have hall : ∀ name ∈ Dialect.named.map (·.1), name.toList ≠ mark := by decide +kernel
      exact hall value hmem
    have hfind := find?_of_unique (p := fun name => name.toList == value.toList) hmem
      (beq_self_eq_true _) fun name _ hname => String.toList_inj.1 (eq_of_beq hname)
    rw [values, Values.setting?, if_neg hmark]
    exact congrArg (Option.map Setting.text) hfind
  | switch q on =>
    have hmark : value.toList ≠ mark := by
      intro heq
      have hnone : integer? .ten mark = none := by decide +kernel
      rw [Takes, heq, hnone] at h
      cases h
    rw [values, Values.setting?, if_neg hmark]
    show ((integer? .ten value.toList).filter _).map _ = _
    rw [h]
    cases on <;> rfl

namespace Occurrence

/-- What is put into the options. -/
def entry (x : Occurrence) : OptionName × Setting := (x.choice.name, x.choice.setting x.value)

theorem follow_event (x : Occurrence) (p : Progress) :
    p.follow (.value x.choice.form.key x.value.toList) = .ok (p.set x.entry.1 x.entry.2) := by
  have hkey : x.choice.form.key = .setting x.choice.name x.choice.values := by
    cases x.choice <;> rfl
  rw [hkey, Progress.follow, Choice.setting?_of_takes x.takes]
  rfl

theorem foldlM_follow (xs : List Occurrence) (p : Progress) :
    (xs.map fun x => Event.value x.choice.form.key x.value.toList).foldlM Progress.follow p =
      .ok { p with options := p.options.setAll (xs.map entry) } := by
  induction xs generalizing p with
  | nil => rfl
  | cons x xs ih =>
    rw [List.map_cons, List.foldlM_cons, follow_event]
    exact ih _

end Occurrence

/-- The arguments that name a file among choices. -/
def argsOf (before after : List Occurrence) (filename : String) : List String :=
  before.flatMap (·.args) ++ filename :: after.flatMap (·.args)

/-- What these arguments put into the options. -/
def entriesOf (before after : List Occurrence) (filename : String) : List (OptionName × Setting) :=
  before.map (·.entry) ++ (.filename, .text filename) :: after.map (·.entry)

section Reading

variable (before after xs : List Occurrence) (filename : String)

theorem parse_of_events {args : List String} {said : List (Event Request)} {p : Progress}
    (hread : read? forms args = some said) (hfold : said.foldlM Progress.follow .start = .ok p) :
    parse args = p.finish := by
  rw [parse, hread]
  show (said.foldlM Progress.follow Progress.start >>= Progress.finish) = _
  rw [hfold]
  rfl

/-- Choices around the name of a file are read without a mistake. -/
theorem parse_choices (h : filename.toList.head? ≠ some '-') :
    parse (argsOf before after filename) =
      .ok (Options.setAll (fun name => some (usual name)) (entriesOf before after filename)) := by
  refine parse_of_events (p := ⟨_, true, false⟩)
    (read?_written (fun x : Occurrence => x.choice.form) (·.value.toList) (·.args) clear_forms
      before after (.word h) fun x _ => ⟨x.choice.form_mem.1, x.choice.form_mem.2, x.written⟩) ?_
  rw [List.foldlM_append, Occurrence.foldlM_follow]
  refine (Occurrence.foldlM_follow after _).trans ?_
  simp only [entriesOf, Options.setAll, List.foldl_append, List.foldl_cons, Progress.start,
    Progress.set, String.ofList_toList]

/-! ### What choices come to -/

/-- The value that an option has after choices: the last that was written for it. -/
def lastValue (xs : List Occurrence) (name : OptionName) : Setting :=
  (Options.valuesOf (xs.map (·.entry)) name).getLast?.getD (usual name)

theorem options_apply (name : OptionName) (h : name ≠ .filename) :
    Options.setAll (fun name => some (usual name)) (entriesOf before after filename) name =
      some (lastValue (before ++ after) name) := by
  have hvalues : Options.valuesOf (entriesOf before after filename) name =
      Options.valuesOf ((before ++ after).map (·.entry)) name := by
    simp only [Options.valuesOf, entriesOf, List.map_append, List.filterMap_append,
      List.filterMap_cons, if_neg (Ne.symm h)]
  rw [Options.setAll_apply, hvalues, lastValue]
  cases (Options.valuesOf _ name).getLast? <;> rfl

/-- What the last value of an option is read as is what the last choice means that it was written for. -/
theorem getLast?_valuesOf {α β : Type} (name : OptionName)
    (read : Setting → β) (meant? : Choice → Option α) (wrap : α → β)
    (h : ∀ (c : Choice) (value : String), c.Takes value →
      (if c.name = name then some (read (c.setting value)) else none) = (meant? c).map wrap) :
    (Options.valuesOf (xs.map (·.entry)) name).getLast?.map read =
      ((xs.map (·.choice)).filterMap meant?).getLast?.map wrap := by
  rw [← List.getLast?_map, ← List.getLast?_map, Options.valuesOf, List.map_filterMap,
    List.map_filterMap, List.filterMap_map, List.filterMap_map]
  congr 2
  funext x
  rw [Function.comp_apply, Function.comp_apply, ← h x.choice x.value x.takes]
  show (if x.choice.name = name then _ else _ : Option Setting).map read = _
  split <;> rfl

theorem ofSetting_lastValue :
    Dialect.ofSetting (lastValue xs .arch) =
      .ok (((xs.map (·.choice)).filterMap Choice.dialect?).getLast?.getD .modern) := by
  have husual : Dialect.ofSetting (usual .arch) = .ok .modern := Dialect.ofSetting_text rfl
  have hlast := getLast?_valuesOf xs .arch Dialect.ofSetting Choice.dialect? .ok
    fun c value h => by
      cases c with
      | dialect d => exact congrArg some (Dialect.ofSetting_text h)
      | switch q on => rfl
  rw [lastValue, ← Option.getD_map Dialect.ofSetting, hlast, husual, Option.getD_map]

theorem toChoice_lastValue (q : Switch) :
    (lastValue xs (.switch q)).toChoice =
      ((xs.map (·.choice)).filterMap (Choice.position? q)).getLast? := by
  have hlast := getLast?_valuesOf xs (.switch q) Setting.toChoice (Choice.position? q) some
    fun c value _ => by
      cases c with
      | dialect d => rfl
      | switch q' on =>
        simp only [Choice.name, OptionName.switch.injEq, Choice.position?]
        split
        · cases on <;> rfl
        · rfl
  rw [lastValue, ← Option.getD_map Setting.toChoice, hlast]
  cases (List.filterMap _ (xs.map (·.choice))).getLast? <;> rfl

/-- The options choose the dialect that the choices come to. -/
theorem ofOptions_choices :
    Dialect.ofOptions
        (Options.setAll (fun name => some (usual name)) (entriesOf before after filename)) =
      .ok (chosen ((before ++ after).map (·.choice))) := by
  have harch := options_apply before after filename .arch nofun
  have hswitch (q : Switch) := options_apply before after filename (.switch q) nofun
  rw [Dialect.ofOptions_eq harch (ofSetting_lastValue (before ++ after)) hswitch]
  simp only [toChoice_lastValue, chosen]

end Reading

/-! ### The interpreter that is started -/

theorem of_bind_eq_ok {ε α β : Type} {result : Except ε α} {next : α → Except ε β} {b : β}
    (h : result.bind next = .ok b) : ∃ a, result = .ok a ∧ next a = .ok b := by
  cases result with
  | error e => cases h
  | ok a => exact ⟨a, rfl, h⟩

/-- The interpreter that is started is a new one of the dialect that the options choose, with the program
in it. -/
theorem new_of_plan {host : Host} {o : Options} {kind : FrontEndKind} {s : Interpreter Twister}
    {d : Dialect} (hd : Dialect.ofOptions o = .ok d) (h : plan host o = .ok (kind, s)) :
    ∃ tracing numbers rom, (Interpreter.new d tracing numbers).after [.loadRom rom] = s := by
  unfold plan at h
  obtain ⟨d', hd', h⟩ := of_bind_eq_ok h
  cases hd.symm.trans hd'
  obtain ⟨_, -, h⟩ := of_bind_eq_ok h
  obtain ⟨_, -, h⟩ := of_bind_eq_ok h
  obtain ⟨_, -, h⟩ := of_bind_eq_ok h
  obtain ⟨rom, -, h⟩ := of_bind_eq_ok h
  obtain ⟨debug, -, h⟩ := of_bind_eq_ok h
  obtain ⟨_, -, h⟩ := of_bind_eq_ok h
  obtain ⟨numbers, -, h⟩ := of_bind_eq_ok h
  obtain ⟨loaded, hload, h⟩ := of_bind_eq_ok h
  cases h
  refine ⟨debug.isTrue, numbers, rom, ?_⟩
  cases hrom : (Interpreter.new d debug.isTrue numbers).loadRom rom with
  | error f =>
    rw [hrom] at hload
    cases hload
  | ok loaded' =>
    rw [hrom] at hload
    cases hload
    rw [Interpreter.after_cons, Interpreter.after_nil, Interpreter.perform, hrom]
    rfl

/-- Whatever choices stand around the name of a file, each switch is where it was chosen last, or else
where the dialect named last has it, and after that where the last call since the last reset put it. -/
theorem choices_in_force (before after : List Occurrence) (filename : String)
    (h : filename.toList.head? ≠ some '-') :
    let dialect := chosen ((before ++ after).map (·.choice))
    ∃ o, parse (argsOf before after filename) = .ok o ∧ Dialect.ofOptions o = .ok dialect ∧
      (∀ host kind s, plan host o = .ok (kind, s) →
        ∃ tracing numbers rom, (Interpreter.new dialect tracing numbers).after [.loadRom rom] = s) ∧
      ∀ {ρ : Type} [NumberSource ρ] (tracing : Bool) (numbers : ρ) (history : List Operation)
        (q : Switch),
        let s := (Interpreter.new dialect tracing numbers).after history
        s.dialect q = (Operation.lastPosition? q history).getD (dialect q) ∧
          (∀ value : Setting,
            (s.perform (.put q value)).after.dialect = s.dialect.set q value.isTrue) ∧
          ∀ op : Operation, ¬op.Moves q → (s.perform op).after.dialect q = s.dialect q := by
  intro dialect
  have hd := ofOptions_choices before after filename
  refine ⟨_, parse_choices before after filename h, hd, fun host kind s => new_of_plan hd, ?_⟩
  · intro ρ _ tracing numbers history q s
    exact ⟨Interpreter.dialect_after rfl history q, Interpreter.dialect_of_put,
      fun op => Interpreter.dialect_of_not_moves⟩

/-- Two dialects and two positions of a switch, written in four ways around the file. -/
theorem choices_in_force_of_repeats :
    ∃ o d, parse ["-achip8", "--wrap=1", "game.ch8", "--arch", "xochip", "--wrap_quirks", "0"] = .ok o ∧
      Dialect.ofOptions o = .ok d ∧ Switch.all.map d = [false, true, false, false, false, false] ∧
      ∀ numbers : Twister, ((Interpreter.new d false numbers).after
        [.put .load .absent, .reset, .put .wrap (.text "no"), .tick]).dialect .wrap = true := by
  have names (c : Choice) (name : String) (hne : name.toList ≠ [])
      (h : (forms.filter fun f => name.toList.isPrefixOf f.long.toList).map (·.long) = [c.form.long]) :
      Names forms c.form name.toList :=
    clear_forms.names c.form_mem.1 hne h
  have hone : integer? .ten "1".toList = some 1 := by decide +kernel
  have hzero : integer? .ten "0".toList = some 0 := by decide +kernel
  have hwrap := names (.switch .wrap true) "wrap" (by decide +kernel) (by decide +kernel)
  have hlong := names (.switch .wrap false) "wrap_quirks" (by decide +kernel) (by decide +kernel)
  have harch := names (.dialect .xoChip) "arch" (by decide +kernel) (by decide +kernel)
  let cosmac : Occurrence :=
    ⟨.dialect .cosmac, "chip8", ["-achip8"], rfl, .short rfl (by decide +kernel)⟩
  let wrap : Occurrence := ⟨.switch .wrap true, "1", ["--wrap=1"], hone, .long hwrap⟩
  let xoChip : Occurrence :=
    ⟨.dialect .xoChip, "xochip", ["--arch", "xochip"], rfl,
      .longApart harch (.word (by decide +kernel))⟩
  let noWrap : Occurrence :=
    ⟨.switch .wrap false, "0", ["--wrap_quirks", "0"], hzero,
      .longApart hlong (.word (by decide +kernel))⟩
  obtain ⟨o, hparse, hd, -, hruns⟩ := choices_in_force [cosmac, wrap] [xoChip, noWrap] "game.ch8"
    (by decide +kernel)
  refine ⟨o, _, hparse, hd, rfl, fun numbers => ?_⟩
  exact (hruns false numbers _ .wrap).1

end CommandLine

end Chip8
