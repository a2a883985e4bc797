import Chip8.Controls.Keymap
import Chip8.Startup.Arguments
import Chip8.Startup.Launch

/-!
# The command line

The options of the command line and what they put into the options of the program.  Of an option that is
given twice the last value counts.
-/

namespace Chip8.CommandLine

open Arguments Text

/-- The values that an option takes. -/
inductive Values
  | text
  | oneOf (names : List String)
  | integer
  | oneOfIntegers (numbers : List Int)
deriving DecidableEq, Inhabited

/-- What an option asks for. -/
inductive Request
  | help
  | debug
  | setting (name : OptionName) (values : Values)
deriving DecidableEq, Inhabited

/-- Why a command line ends the program. -/
inductive Exit
  | help
  /-- It makes no sense. -/
  | misuse
deriving DecidableEq, Inhabited

/-- The number that the program ends with. -/
def Exit.status : Exit → Nat
  | help => 0
  | misuse => 2

/-- An option with a value. -/
def valued (short : Option Char) (name : OptionName) (values : Values) : Form Request :=
  ⟨short, name.label, true, .setting name values⟩

/-- The option of a switch. -/
def switchForm (s : Switch) : Form Request := valued none (.switch s) (.oneOfIntegers [0, 1])

/-- The options of the command line. -/
def forms : List (Form Request) :=
  [⟨some 'h', "help", false, .help⟩,
    valued (some 'a') .arch (.oneOf (Dialect.named.map (·.1))),
    valued (some 'c') .clockSpeed .integer,
    valued none .seed .integer]
  ++ Switch.all.map switchForm
  ++ [valued (some 'r') .renderer (.oneOf (FrontEndKind.all.map (·.label))),
    valued (some 's') .scale .integer,
    valued (some 'f') .smoothing .integer,
    valued none .palette .text,
    valued none .cursorMode (.oneOfIntegers [0, 1, 2]),
    valued (some 'k') .keymap .text,
    ⟨some 'd', "debug", false, .debug⟩]

/-- The settings of options that are not given. -/
def usual : OptionName → Setting
  | .arch => .text "modern"
  | .smoothing => .integer 0
  | .cursorMode => .integer 0
  | .keymap => .text Keymap.standardText
  | .debug => .flag false
  | _ => .absent

/-- The setting that a text is, if an option takes it.  The mark for plain arguments joined to an option
is no value, so every option takes it as an empty collection. -/
def Values.setting? (text : List Char) (values : Values) : Option Setting :=
  if text = mark then some (.collection true)
  else
    match values with
    | .text => some (.text (String.ofList text))
    | .oneOf names => (names.find? fun name => name.toList == text).map .text
    | .integer => (integer? .ten text).map .integer
    | .oneOfIntegers numbers => ((integer? .ten text).filter (numbers.contains ·)).map .integer

/-- A command line as far as it was read. -/
structure Progress where
  options : Options
  /-- Whether the program's file was named. -/
  named : Bool
  /-- Whether something had no place. -/
  surplus : Bool
deriving Inhabited

namespace Progress

/-- Before anything was read. -/
def start : Progress := ⟨fun name => some (usual name), false, false⟩

/-- Sets an option. -/
def set (p : Progress) (name : OptionName) (value : Setting) : Progress :=
  { p with options := p.options.set name value }

/-- Follows an event. -/
def follow (p : Progress) : Event Request → Except Exit Progress
  | .flag .debug => .ok (p.set .debug (.flag true))
  | .flag _ => .error .help
  | .value (.setting name values) text =>
    match values.setting? text with
    | some value => .ok (p.set name value)
    | none => .error .misuse
  | .value _ _ => .error .misuse
  | .argument text => .ok { p.set .filename (.text (String.ofList text)) with named := true }
  | .surplus => .ok { p with surplus := true }
  | .misuse => .error .misuse

/-- The options, if the command line was complete and nothing is left over. -/
def finish (p : Progress) : Except Exit Options :=
  if p.named ∧ ¬ p.surplus then .ok p.options else .error .misuse

end Progress

/-- The options that a command line gives. -/
def parse (args : List String) : Except Exit Options :=
  match read? forms args with
  | none => .error .misuse
  | some events => do (← events.foldlM Progress.follow .start).finish

/-- How an option is written in the description of the command line. -/
def usageOf (form : Form Request) : String :=
  let value := if form.takesValue then " " ++ form.long.toUpper else ""
  let short := match form.short with
    | some c => "-" ++ c.toString ++ value ++ ", "
    | none => ""
  "  " ++ short ++ "--" ++ form.long ++ value

/-- The description of the command line. -/
def usage : String :=
  "usage: chip8 [options] filename\n\noptions:\n" ++ "\n".intercalate (forms.map usageOf)

end Chip8.CommandLine
