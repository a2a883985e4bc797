import Chip8.Text.Digit

/-!
# Command line arguments

How a list of arguments is read as options and plain arguments, whatever the options mean.  An option
has a long name, of which a beginning suffices if no other option begins so, and may have a short one.
A value is joined to a long name by an equals sign, to a short one directly or by an equals sign, or is
the next argument.  Short names of options without values may be joined, and a last one may be joined to
its value, but only directly.  All after the mark `--` is plain.

First every argument is sorted by its own looks, then the sorted arguments are read from left to right
as events.  An ambiguous beginning of a name spoils the whole command line; any other mistake is an
event, which counts when it is reached.
-/

namespace Chip8.Arguments

open Text

/-- An option of the command line; its key says what it means. -/
structure Form (κ : Type) where
  short : Option Char
  long : String
  takesValue : Bool
  key : κ
deriving Inhabited

/-- What stands at the end of options that are joined in one argument. -/
inductive Ending (κ : Type)
  | nothing
  /-- An option with its value. -/
  | value (key : κ) (text : List Char)
  /-- An option whose value is the next argument. -/
  | awaits (key : κ)
deriving Inhabited

/-- An argument by its looks. -/
inductive Sorted (κ : Type)
  /-- The mark after which all is plain. -/
  | mark
  | plain (text : List Char)
  /-- Options: some without a value, then the ending. -/
  | options (flags : List κ) (ending : Ending κ)
  | unknown
  /-- Something joined to an option that is neither its value nor another option. -/
  | wrong
deriving Inhabited

/-- What a command line says, piece by piece. -/
inductive Event (κ : Type)
  | flag (key : κ)
  | value (key : κ) (text : List Char)
  /-- The one plain argument. -/
  | argument (text : List Char)
  /-- Something that has no place. -/
  | surplus
  /-- A mistake after which nothing is read. -/
  | misuse
deriving Inhabited

variable {κ : Type}

/-- The mark after which all is plain. -/
def mark : List Char := ['-', '-']

/-! ### Sorting -/

/-- The options that begin with one and the characters joined to it: its value if it takes one, else
the short names of more options. -/
def joined (forms : List (Form κ)) : Form κ → List Char → Sorted κ
  | form, [] => if form.takesValue then .options [] (.awaits form.key) else .options [form.key] .nothing
  | form, c :: rest =>
    if form.takesValue then .options [] (.value form.key (c :: rest))
    else match forms.find? (·.short == some c) with
      | none => .wrong
      | some next =>
        match joined forms next rest with
        | .options flags ending => .options (form.key :: flags) ending
        | other => other

/-- The options that begin with a short name, with what is joined to it.  An equals sign right behind the
name is dropped; with nothing behind it, it joins an empty value. -/
def short (forms : List (Form κ)) (form : Form κ) : List Char → Sorted κ
  | ['='] => if form.takesValue then .options [] (.value form.key []) else .wrong
  | '=' :: rest => joined forms form rest
  | rest => joined forms form rest

/-- Whether all characters are decimal digits. -/
def allDigits (cs : List Char) : Bool := cs.all fun c => (digitValue? c).isSome

/-- The text without a line feed at its end. -/
def dropLineFeed (cs : List Char) : List Char :=
  if cs.getLast? = some '\n' then cs.dropLast else cs

/-- Whether the characters after a dash make it a negative number: digits, perhaps with a point
before the last of them. -/
def isNumber (cs : List Char) : Bool :=
  let cs := dropLineFeed cs
  let whole := cs.takeWhile (· != '.')
  match cs.dropWhile (· != '.') with
  | [] => !whole.isEmpty && allDigits whole
  | _ :: fraction => allDigits whole && !fraction.isEmpty && allDigits fraction

/-- An argument that begins with a dash but names no option: plain if it is a number or holds a
space. -/
def unnamed (arg : List Char) : Sorted κ :=
  if isNumber (arg.drop 1) ∨ ' ' ∈ arg then .plain arg else .unknown

/-- The options whose long name is a text or, if there is none, begins with it. -/
def candidates (forms : List (Form κ)) (name : List Char) : List (Form κ) :=
  match forms.find? (·.long.toList == name) with
  | some form => [form]
  | none => forms.filter fun form => name.isPrefixOf form.long.toList

/-- An option under its long name, with what follows the equals sign. -/
def named (form : Form κ) : Option (List Char) → Sorted κ
  | none => if form.takesValue then .options [] (.awaits form.key) else .options [form.key] .nothing
  | some text => if form.takesValue then .options [] (.value form.key text) else .wrong

/-- The text after the first equals sign, if there is one. -/
def afterEquals? (cs : List Char) : Option (List Char) :=
  match cs.dropWhile (· != '=') with
  | [] => none
  | _ :: text => some text

/-- Sorts an argument; nothing if it is ambiguous. -/
def sort? (forms : List (Form κ)) : List Char → Option (Sorted κ)
  | '-' :: '-' :: name =>
    match candidates forms (name.takeWhile (· != '=')) with
    | [] => some (unnamed ('-' :: '-' :: name))
    | [form] => some (named form (afterEquals? name))
    | _ => none
  | '-' :: c :: rest =>
    match forms.find? (·.short == some c) with
    | none => some (unnamed ('-' :: c :: rest))
    | some form => some (short forms form rest)
  | arg => some (.plain arg)

/-- Sorts the arguments; nothing if one is ambiguous. -/
def sortAll? (forms : List (Form κ)) : List (List Char) → Option (List (Sorted κ))
  | [] => some []
  | arg :: args =>
    if arg = mark then some (.mark :: args.map .plain)
    else do
      let first ← sort? forms arg
      let rest ← sortAll? forms args
      return first :: rest

/-! ### Reading -/

/-- The events of sorted arguments.  `wanted` says that the one plain argument did not come yet.  The
mark belongs to the plain argument, before or behind it. -/
def events (wanted : Bool) : List (Sorted κ) → List (Event κ)
  | [] => []
  | .mark :: args => if wanted then events wanted args else .surplus :: events wanted args
  | .plain text :: .mark :: args =>
    (if wanted then .argument text :: events false args
    else .surplus :: .surplus :: events false args)
  | .plain text :: args => (if wanted then .argument text else .surplus) :: events false args
  | .unknown :: args => .surplus :: events wanted args
  | .wrong :: _ => [.misuse]
  | .options flags .nothing :: args => flags.map .flag ++ events wanted args
  | .options flags (.value key text) :: args =>
    flags.map .flag ++ .value key text :: events wanted args
  | .options flags (.awaits key) :: .plain text :: args =>
    flags.map .flag ++ .value key text :: events wanted args
  | .options _ (.awaits _) :: _ => [.misuse]

/-- The events of a command line; nothing if it is ambiguous. -/
def read? (forms : List (Form κ)) (args : List String) : Option (List (Event κ)) :=
  (sortAll? forms (args.map String.toList)).map (events true)

end Chip8.Arguments
