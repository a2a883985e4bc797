import Chip8.Startup.Arguments
import Mathlib.Data.List.Basic
import Mathlib.Data.List.Nodup
import Mathlib.Data.List.Perm.Basic
import Mathlib.Data.List.TakeWhile

/-!
# How options with values are written

Reading a command line is a function, but an option with its value can be written in several ways
(`Arguments.Written`), under its short name or under any beginning of its long name that is no other
option's.  Whichever way is chosen, it is read as the same event (`Arguments.readAs_written`), so a
command line of such options around a plain argument is read as their values in their order
(`Arguments.read?_written`).
-/

namespace Chip8.Arguments

open Text

variable {κ : Type} {forms : List (Form κ)} {form : Form κ}

/-- What lets options be told apart by their names: no two share one, no long name holds an equals sign,
and no short name makes what follows a dash a number or a long name. -/
structure Clear (forms : List (Form κ)) : Prop where
  long_nodup : (forms.map (·.long)).Nodup
  equals_notMem : ∀ f ∈ forms, '=' ∉ f.long.toList
  short_unique : ∀ f ∈ forms, ∀ g ∈ forms, f.short = g.short → f.short = none ∨ f.long = g.long
  short_plain : ∀ f ∈ forms, f.short.all fun c => c != '-' && c != '.' && (digitValue? c).isNone

/-- Whether a text is a beginning of the long name of an option and of no other one's. -/
structure Names (forms : List (Form κ)) (form : Form κ) (name : List Char) : Prop where
  ne_nil : name ≠ []
  isPrefix : name <+: form.long.toList
  unique : ∀ f ∈ forms, name <+: f.long.toList → f = form

/-- Whether an argument looks like none of the options: it does not begin with a dash, is a negative
number, or holds a space and has no option's short name behind the dash. -/
inductive LooksPlain (forms : List (Form κ)) : List Char → Prop
  | word {arg : List Char} (h : arg.head? ≠ some '-') : LooksPlain forms arg
  | number {cs : List Char} (h : isNumber cs = true) : LooksPlain forms ('-' :: cs)
  | spaced {c : Char} {rest : List Char} (hc : c ≠ '-') (hshort : ∀ f ∈ forms, f.short ≠ some c)
      (h : ' ' ∈ rest) : LooksPlain forms ('-' :: c :: rest)

/-- The ways to write an option with a value, as one argument or two. -/
inductive Written (forms : List (Form κ)) (form : Form κ) (value : List Char) :
    List (List Char) → Prop
  | long {name : List Char} (hn : Names forms form name) :
      Written forms form value [mark ++ name ++ '=' :: value]
  | longApart {name : List Char} (hn : Names forms form name) (hv : LooksPlain forms value) :
      Written forms form value [mark ++ name, value]
  | short {c : Char} (hc : form.short = some c) (hv : value ≠ [] ∧ value.head? ≠ some '=') :
      Written forms form value ['-' :: c :: value]
  | shortEquals {c : Char} (hc : form.short = some c) :
      Written forms form value ['-' :: c :: '=' :: value]
  | shortApart {c : Char} (hc : form.short = some c) (hv : LooksPlain forms value) :
      Written forms form value [['-', c], value]

/-! ### Sorting -/

variable {name value : List Char}

theorem find?_of_unique {α : Type} {p : α → Bool} {a : α} {as : List α} (ha : a ∈ as)
    (hp : p a = true) (hu : ∀ b ∈ as, p b = true → b = a) : as.find? p = some a := by
  cases hf : as.find? p with
  | none => exact absurd hp (List.find?_eq_none.1 hf a ha)
  | some b => rw [hu b (List.mem_of_find?_eq_some hf) (List.find?_some hf)]

theorem Clear.nodup (hf : Clear forms) : forms.Nodup := hf.long_nodup.of_map _

theorem Clear.short (hf : Clear forms) (hform : form ∈ forms) {c : Char} (hc : form.short = some c) :
    c ≠ '-' ∧ c ≠ '.' ∧ digitValue? c = none := by
  have hplain := hf.short_plain form hform
  rw [hc] at hplain
  simpa [and_assoc] using hplain

theorem Clear.find?_short (hf : Clear forms) (hform : form ∈ forms) {c : Char}
    (hc : form.short = some c) : forms.find? (·.short == some c) = some form := by
  refine find?_of_unique hform (by simp [hc]) fun f hmem hshort => ?_
  have hsame : f.short = form.short := (eq_of_beq hshort).trans hc.symm
  rcases hf.short_unique f hmem form hform hsame with hnone | hlong
  · exact nomatch hc.symm.trans (hsame.symm.trans hnone)
  · exact List.inj_on_of_nodup_map hf.long_nodup hmem hform hlong

theorem Names.equals_notMem (hf : Clear forms) (hform : form ∈ forms) (hn : Names forms form name) :
    '=' ∉ name :=
  fun h => hf.equals_notMem form hform (hn.isPrefix.subset h)

/-- A text names an option if the option's long name is the only one that begins with it. -/
theorem Clear.names (hf : Clear forms) (hform : form ∈ forms) (hne : name ≠ [])
    (h : (forms.filter fun f => name.isPrefixOf f.long.toList).map (·.long) = [form.long]) :
    Names forms form name := by
  have heq {f : Form κ} (hmem : f ∈ forms) (hlong : f.long = form.long) : f = form :=
    List.inj_on_of_nodup_map hf.long_nodup hmem hform hlong
  refine ⟨hne, ?_, fun f hmem hprefix => heq hmem ?_⟩
  · obtain ⟨f, hfilter, hlong⟩ := List.mem_map.1 (h ▸ List.mem_singleton_self form.long)
    obtain ⟨hmem, hprefix⟩ := List.mem_filter.1 hfilter
    rw [← heq hmem hlong]
    exact List.isPrefixOf_iff_prefix.1 hprefix
  · refine List.mem_singleton.1 (h ▸ List.mem_map.2 ⟨f, List.mem_filter.2 ⟨hmem, ?_⟩, rfl⟩)
    exact List.isPrefixOf_iff_prefix.2 hprefix

/-- A name that is told apart has one candidate. -/
theorem Names.candidates (hf : Clear forms) (hform : form ∈ forms) (hn : Names forms form name) :
    candidates forms name = [form] := by
  unfold Arguments.candidates
  split
  · next f hfind =>
    have hsame := List.find?_some hfind
    have hlong : f.long.toList = name := eq_of_beq hsame
    rw [hn.unique f (List.mem_of_find?_eq_some hfind) (hlong ▸ List.prefix_rfl)]
  · refine List.perm_singleton.1 ?_
    refine (List.perm_ext_iff_of_nodup (hf.nodup.filter _) (List.nodup_singleton form)).2 fun f => ?_
    rw [List.mem_filter, List.mem_singleton, List.isPrefixOf_iff_prefix]
    constructor
    · exact fun h => hn.unique f h.1 h.2
    · rintro rfl
      exact ⟨hform, hn.isPrefix⟩

theorem sort?_long (hf : Clear forms) (hform : form ∈ forms) (htakes : form.takesValue = true)
    (hn : Names forms form name) :
    sort? forms (mark ++ name) = some (.options [] (.awaits form.key)) ∧
      ∀ value, sort? forms (mark ++ name ++ '=' :: value) =
        some (.options [] (.value form.key value)) := by
  have hname : ∀ c ∈ name, (c != '=') = true := fun c hc =>
    bne_iff_ne.2 fun h => hn.equals_notMem hf hform (h ▸ hc)
  constructor
  · have htake : name.takeWhile (· != '=') = name := List.takeWhile_eq_self_iff.2 hname
    have hdrop : name.dropWhile (· != '=') = [] := List.dropWhile_eq_nil_iff.2 hname
    show sort? forms ('-' :: '-' :: name) = _
    simp only [sort?, htake, hn.candidates hf hform, afterEquals?, hdrop, named, htakes, if_true]
  · intro value
    have htake : (name ++ '=' :: value).takeWhile (· != '=') = name := by
      rw [List.takeWhile_append_of_pos hname]
      simp
    have hdrop : (name ++ '=' :: value).dropWhile (· != '=') = '=' :: value := by
      rw [List.dropWhile_append_of_pos hname]
      simp
    show sort? forms ('-' :: '-' :: (name ++ '=' :: value)) = _
    simp only [sort?, htake, hn.candidates hf hform, afterEquals?, hdrop, named, htakes, if_true]

theorem sort?_of_short (hf : Clear forms) (hform : form ∈ forms) {c : Char}
    (hc : form.short = some c) (rest : List Char) :
    sort? forms ('-' :: c :: rest) = some (short forms form rest) := by
  have hdash : c ≠ '-' := (hf.short hform hc).1
  unfold sort?
  split
  · next heq =>
    cases heq
    exact absurd rfl hdash
  · next heq =>
    cases heq
    rw [hf.find?_short hform hc]
  · next heq => exact absurd rfl (heq c rest)

theorem short_value (forms : List (Form κ)) (value : List Char) (htakes : form.takesValue = true) :
    short forms form [] = .options [] (.awaits form.key) ∧
      short forms form ('=' :: value) = .options [] (.value form.key value) ∧
      (value ≠ [] ∧ value.head? ≠ some '=' →
        short forms form value = .options [] (.value form.key value)) := by
  refine ⟨by simp [short, joined, htakes], ?_, ?_⟩
  · cases value <;> simp [short, joined, htakes]
  · rintro ⟨hne, hhead⟩
    cases value with
    | nil => exact absurd rfl hne
    | cons c rest =>
      have hc : c ≠ '=' := fun h => hhead (congrArg some h)
      unfold short
      split
      · next heq =>
        cases heq
        exact absurd rfl hc
      · next heq =>
        cases heq
        exact absurd rfl hc
      · simp [joined, htakes]

/-- A number begins with a digit or a point. -/
theorem first_of_isNumber {c : Char} {rest : List Char} (h : isNumber (c :: rest) = true) :
    c = '.' ∨ digitValue? c ≠ none := by
  by_contra hno
  obtain ⟨hpoint, hdigit⟩ := not_or.1 hno
  rw [not_not] at hdigit
  have hwhole (cs : List Char) : allDigits ((c :: cs).takeWhile (· != '.')) = false := by
    simp [allDigits, hpoint, hdigit]
  have hdrop : dropLineFeed (c :: rest) = [] ∨ ∃ cs, dropLineFeed (c :: rest) = c :: cs := by
    unfold dropLineFeed
    split
    · cases rest with
      | nil => exact Or.inl rfl
      | cons c' rest => exact Or.inr ⟨_, rfl⟩
    · exact Or.inr ⟨_, rfl⟩
  unfold isNumber at h
  rcases hdrop with hnil | ⟨cs, hcons⟩
  · rw [hnil] at h
    cases h
  · simp only [hcons, hwhole, Bool.and_false, Bool.false_and] at h
    split at h <;> cases h

/-- Behind a dash that is not the mark of a long name, what names no option is plain if it is a number or
holds a space. -/
theorem sort?_of_unnamed {c : Char} {rest : List Char} (hdash : c ≠ '-')
    (hshort : ∀ f ∈ forms, f.short ≠ some c)
    (h : isNumber (c :: rest) = true ∨ ' ' ∈ '-' :: c :: rest) :
    '-' :: c :: rest ≠ mark ∧ sort? forms ('-' :: c :: rest) = some (.plain ('-' :: c :: rest)) := by
  refine ⟨fun heq => hdash (List.cons.inj (List.cons.inj heq).2).1, ?_⟩
  have hnone : forms.find? (·.short == some c) = none :=
    List.find?_eq_none.2 fun f hmem hsame => hshort f hmem (eq_of_beq hsame)
  unfold sort?
  split
  · next heq =>
    cases heq
    exact absurd rfl hdash
  · next heq =>
    cases heq
    rw [hnone]
    exact congrArg some (if_pos h)
  · next heq => exact absurd rfl (heq c rest)

theorem sort?_of_looksPlain (hf : Clear forms) {arg : List Char} (h : LooksPlain forms arg) :
    arg ≠ mark ∧ sort? forms arg = some (.plain arg) := by
  cases h with
  | word hhead =>
    refine ⟨fun heq => hhead (congrArg List.head? heq), ?_⟩
    unfold sort?
    split
    · exact absurd rfl hhead
    · exact absurd rfl hhead
    · rfl
  | @number cs hnumber =>
    cases cs with
    | nil => exact absurd hnumber (by decide)
    | cons c rest =>
      have hfirst := first_of_isNumber hnumber
      refine sort?_of_unnamed ?_ (fun f hmem hsame => ?_) (Or.inl hnumber)
      · rintro rfl
        rcases hfirst with h | h
        · cases h
        · exact h (by decide +kernel)
      · obtain ⟨-, hpoint, hdigit⟩ := hf.short hmem hsame
        exact hfirst.elim hpoint (absurd hdigit)
  | spaced hc hshort hspace =>
    exact sort?_of_unnamed hc hshort
      (Or.inr (List.mem_cons_of_mem _ (List.mem_cons_of_mem _ hspace)))

theorem sortAll?_cons {arg : List Char} {first : Sorted κ} (hmark : arg ≠ mark)
    (h : sort? forms arg = some first) (args : List (List Char)) :
    sortAll? forms (arg :: args) = (sortAll? forms args).map (first :: ·) := by
  rw [sortAll?, if_neg hmark, h]
  cases sortAll? forms args <;> rfl

/-! ### Reading -/

/-- Whether arguments are read as events, whatever stands before them and behind them. -/
structure ReadAs (forms : List (Form κ)) (args : List (List Char)) (sorted : List (Sorted κ))
    (said : List (Event κ)) : Prop where
  sortAll? : ∀ rest, sortAll? forms (args ++ rest) = (sortAll? forms rest).map (sorted ++ ·)
  events : ∀ wanted rest, events wanted (sorted ++ rest) = said ++ events wanted rest
  head? : sorted.head? ≠ some .mark

theorem readAs_nil : ReadAs forms [] [] [] :=
  ⟨fun rest => by simp, fun _ _ => rfl, nofun⟩

theorem ReadAs.append {args args' : List (List Char)} {sorted sorted' : List (Sorted κ)}
    {said said' : List (Event κ)} (h : ReadAs forms args sorted said)
    (h' : ReadAs forms args' sorted' said') :
    ReadAs forms (args ++ args') (sorted ++ sorted') (said ++ said') := by
  refine ⟨fun rest => ?_, fun wanted rest => ?_, ?_⟩
  · rw [List.append_assoc, h.sortAll?, h'.sortAll?, Option.map_map]
    simp only [Function.comp_def, List.append_assoc]
  · rw [List.append_assoc, h.events, h'.events, List.append_assoc]
  · cases sorted with
    | nil => exact h'.head?
    | cons first sorted => exact h.head?

theorem readAs_one {arg : List Char} {key : κ} (hmark : arg ≠ mark)
    (h : sort? forms arg = some (.options [] (.value key value))) :
    ReadAs forms [arg] [.options [] (.value key value)] [.value key value] :=
  ⟨sortAll?_cons hmark h, fun _ _ => rfl, nofun⟩

theorem readAs_two {arg : List Char} {key : κ} (hf : Clear forms) (hmark : arg ≠ mark)
    (h : sort? forms arg = some (.options [] (.awaits key))) (hv : LooksPlain forms value) :
    ReadAs forms [arg, value] [.options [] (.awaits key), .plain value] [.value key value] := by
  refine ⟨fun rest => ?_, fun _ _ => rfl, nofun⟩
  obtain ⟨hmark', hplain⟩ := sort?_of_looksPlain hf hv
  show Arguments.sortAll? forms (arg :: value :: rest) = _
  rw [sortAll?_cons hmark h, sortAll?_cons hmark' hplain, Option.map_map]
  rfl

/-- However an option is written, it is read as its value. -/
theorem readAs_written (hf : Clear forms) (hform : form ∈ forms) (htakes : form.takesValue = true)
    {args : List (List Char)} (h : Written forms form value args) :
    ∃ sorted, ReadAs forms args sorted [.value form.key value] := by
  obtain ⟨hnone, hequals, hdirect⟩ := short_value forms value htakes
  have hdash {c : Char} (hc : form.short = some c) (rest : List Char) : '-' :: c :: rest ≠ mark :=
    fun heq => (hf.short hform hc).1 (List.cons.inj (List.cons.inj heq).2).1
  cases h with
  | @long name hn =>
    refine ⟨_, readAs_one ?_ ((sort?_long hf hform htakes hn).2 value)⟩
    exact fun heq => by simp [mark] at heq
  | @longApart name hn hv =>
    refine ⟨_, readAs_two hf ?_ (sort?_long hf hform htakes hn).1 hv⟩
    exact fun heq => hn.ne_nil (List.append_right_eq_self.1 heq)
  | short hc hv =>
    have hsort := (sort?_of_short hf hform hc value).trans (congrArg some (hdirect hv))
    exact ⟨_, readAs_one (hdash hc value) hsort⟩
  | shortEquals hc =>
    have hsort := (sort?_of_short hf hform hc _).trans (congrArg some hequals)
    exact ⟨_, readAs_one (hdash hc _) hsort⟩
  | shortApart hc hv =>
    have hsort := (sort?_of_short hf hform hc []).trans (congrArg some hnone)
    exact ⟨_, readAs_two hf (hdash hc []) hsort hv⟩

theorem events_plain {text : List Char} {sorted : List (Sorted κ)} (h : sorted.head? ≠ some .mark) :
    events true (.plain text :: sorted) = .argument text :: events false sorted := by
  cases sorted with
  | nil => rfl
  | cons first sorted =>
    cases first with
    | mark => exact absurd rfl h
    | _ => rfl

section Occurrences

variable {ι : Type} (formOf : ι → Form κ) (valueOf : ι → List Char) (argsOf : ι → List String)

/-- Options one after another are read as their values in their order. -/
theorem readAs_flatMap (hf : Clear forms) {xs : List ι}
    (h : ∀ x ∈ xs, formOf x ∈ forms ∧ (formOf x).takesValue = true ∧
      Written forms (formOf x) (valueOf x) ((argsOf x).map String.toList)) :
    ∃ sorted, ReadAs forms ((xs.flatMap argsOf).map String.toList) sorted
      (xs.map fun x => .value (formOf x).key (valueOf x)) := by
  induction xs with
  | nil => exact ⟨[], readAs_nil⟩
  | cons x xs ih =>
    obtain ⟨⟨hform, htakes, hwritten⟩, hxs⟩ := List.forall_mem_cons.1 h
    obtain ⟨sorted, hx⟩ := readAs_written hf hform htakes hwritten
    obtain ⟨rest, hrest⟩ := ih hxs
    rw [List.flatMap_cons, List.map_append]
    exact ⟨sorted ++ rest, hx.append hrest⟩

/-- Options around a plain argument are read as their values, with the argument where it stands. -/
theorem read?_written (hf : Clear forms) (before after : List ι) {plain : String}
    (hplain : LooksPlain forms plain.toList)
    (h : ∀ x ∈ before ++ after, formOf x ∈ forms ∧ (formOf x).takesValue = true ∧
      Written forms (formOf x) (valueOf x) ((argsOf x).map String.toList)) :
    read? forms (before.flatMap argsOf ++ plain :: after.flatMap argsOf) =
      some (before.map (fun x => .value (formOf x).key (valueOf x)) ++
        .argument plain.toList :: after.map fun x => .value (formOf x).key (valueOf x)) := by
  obtain ⟨hbefore, hafter⟩ := List.forall_mem_append.1 h
  obtain ⟨sorted, hsorted⟩ := readAs_flatMap formOf valueOf argsOf hf hbefore
  obtain ⟨rest, hrest⟩ := readAs_flatMap formOf valueOf argsOf hf hafter
  obtain ⟨hmark, hlooks⟩ := sort?_of_looksPlain hf hplain
  have hend := hrest.sortAll? []
  have hsaid := hrest.events false []
  simp only [List.append_nil, sortAll?, Option.map_some, events] at hend hsaid
  rw [read?, List.map_append, List.map_cons, hsorted.sortAll?, sortAll?_cons hmark hlooks, hend]
  simp only [Option.map_some, Option.some.injEq]
  rw [hsorted.events, events_plain hrest.head?, hsaid]

end Occurrences

end Chip8.Arguments
