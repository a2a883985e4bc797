import Chip8.Text.Decimal

/-!
# Settings

An option's value as a front end may hand it over: absent, a truth value, a number, a text, or a
collection.  Options are read leniently: nearly every value counts as true or false, and what has to be
an integer may come as a number or as text.
-/

namespace Chip8

open Text

/-- The value of an option. -/
inductive Setting
  | absent
  | flag (on : Bool)
  | integer (n : Int)
  | decimal (d : Decimal)
  | text (s : String)
  /-- A list or a table, of which only matters whether it is empty. -/
  | collection (empty : Bool)
deriving DecidableEq, Inhabited

/-- Why a value is no integer. -/
inductive NumberFault
  /-- It is a text, but not that of an integer. -/
  | unreadable
  | wrongKind
deriving DecidableEq, Inhabited

namespace Setting

/-- The value, or another if it is absent. -/
def orElse (s usual : Setting) : Setting := if s = absent then usual else s

/-- Whether a value counts as true: all do but absence, `false`, zero and what is empty. -/
def isTrue : Setting → Bool
  | absent => false
  | flag on => on
  | integer n => n != 0
  | decimal d => d.digits != 0
  | text s => s != ""
  | collection empty => !empty

/-- The integer that a value stands for; a fraction is cut off. -/
def toInteger : Setting → Except NumberFault Int
  | absent => .error .wrongKind
  | flag on => .ok (if on then 1 else 0)
  | integer n => .ok n
  | decimal d => .ok d.whole
  | text s =>
    match integer? .ten s.toList with
    | some n => .ok n
    | none => .error .unreadable
  | collection _ => .error .wrongKind

/-- The position of a switch that a value chooses; absence chooses none. -/
def toChoice : Setting → Option Bool
  | absent => none
  | s => some s.isTrue

/-- The text of a value in a message.  Collections are refused before any message. -/
def message : Setting → String
  | absent => "None"
  | flag true => "True"
  | flag false => "False"
  | integer n => toString n
  | decimal d => d.toText
  | text s => s
  | collection _ => ""

end Setting

end Chip8
