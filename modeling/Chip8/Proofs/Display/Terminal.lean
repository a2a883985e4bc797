import Mathlib.Data.List.GetD
import Chip8.Proofs.Display.Histories
import Chip8.Proofs.Display.Pads

/-!
# What a terminal shows

After every drawing the pad of a terminal shows the title and the frame (`Pad.Bar`, `Pad.Pictures`),
although only cells that changed were written, pads were thrown away at new sizes, and titles were given
at any time.  Beside the terminal stand the calls made so far: what they wrote lies inside the pads, and
the terminal knows whether anything was written since the last copy (`Terminal.Accounts`).  The main
statement is `terminal_shows`.
-/

namespace Chip8

/-! ### Calls -/

namespace HostCall

/-- Whether a call writes on a pad. -/
def isWrite : HostCall → Bool
  | write _ _ _ _ => true
  | _ => false

/-- Whether a call copies a pad to the terminal. -/
def isCopy : HostCall → Bool
  | copyPad _ _ _ => true
  | _ => false

/-- Whether a call neither makes nor writes nor copies a pad. -/
def leavesPads : HostCall → Bool
  | newPad _ _ | write _ _ _ _ | copyPad _ _ _ => false
  | _ => true

/-- The size of the pad in use after calls, if there is one. -/
def padInUse (calls : List HostCall) : Option (Int × Int) :=
  calls.foldl (fun size call => match call with
    | newPad rows columns => some (rows, columns)
    | _ => size) none

/-- Whether something was written on a pad, be it replaced since, after the last copy. -/
def unsaved (calls : List HostCall) : Bool :=
  calls.foldl (fun unsaved call => match call with
    | write _ _ _ _ => true
    | copyPad _ _ _ => false
    | _ => unsaved) false

/-- Whether a call, if it writes, does so on a pad of a size, and neither in the last row nor in the last
column. -/
def FitsIn (size : Option (Int × Int)) : HostCall → Prop
  | write row column text _ => ∃ rows columns, size = some (rows, columns) ∧
      (0 ≤ row ∧ row < rows - 1) ∧ 0 ≤ column ∧ column + text.length ≤ columns - 1
  | _ => True

/-- Whether every call that writes fits in the pad in use then. -/
def WritesInside (calls : List HostCall) : Prop :=
  ∀ front call back, calls = front ++ call :: back → call.FitsIn (padInUse front)

theorem WritesInside.concat {calls : List HostCall} {call : HostCall} (h : WritesInside calls)
    (hcall : call.FitsIn (padInUse calls)) : WritesInside (calls ++ [call]) := by
  intro front call' back heq
  rcases List.eq_nil_or_concat back with rfl | ⟨back, last, rfl⟩
  · obtain ⟨rfl, hlast⟩ := List.append_inj' heq rfl
    cases hlast
    exact hcall
  · rw [List.concat_eq_append, ← List.cons_append, ← List.append_assoc] at heq
    exact h front call' back (List.append_inj' heq rfl).1

variable (calls : List HostCall) {more : List HostCall}

theorem not_of_leavesPads {call : HostCall} (h : call.leavesPads = true) :
    call.isWrite = false ∧ call.isCopy = false := by
  cases call with
  | newPad | write | copyPad => cases h
  | _ => exact ⟨rfl, rfl⟩

theorem padInUse_concat (call : HostCall) :
    padInUse (calls ++ [call]) = match call with
      | newPad rows columns => some (rows, columns)
      | _ => padInUse calls :=
  List.foldl_append

theorem unsaved_concat (call : HostCall) :
    unsaved (calls ++ [call]) = match call with
      | write _ _ _ _ => true
      | copyPad _ _ _ => false
      | _ => unsaved calls :=
  List.foldl_append

/-- Calls that leave the pads add nothing to a summary of calls that none of them changes. -/
theorem foldl_append_of_leavesPads {α : Type} {f : α → HostCall → α}
    (hf : ∀ a call, call.leavesPads = true → f a call = a) (a : α)
    (h : ∀ call ∈ more, call.leavesPads = true) : (calls ++ more).foldl f a = calls.foldl f a := by
  rw [List.foldl_append]
  induction more with
  | nil => rfl
  | cons call more ih =>
    rw [List.foldl_cons, hf _ _ (h call (by simp))]
    exact ih fun c hc => h c (List.mem_cons_of_mem call hc)

theorem padInUse_append (h : ∀ call ∈ more, call.leavesPads = true) :
    padInUse (calls ++ more) = padInUse calls := by
  refine foldl_append_of_leavesPads calls (fun size call hcall => ?_) none h
  cases call with
  | newPad => cases hcall
  | _ => rfl

theorem unsaved_append (h : ∀ call ∈ more, call.leavesPads = true) :
    unsaved (calls ++ more) = unsaved calls := by
  refine foldl_append_of_leavesPads calls (fun last call hcall => ?_) false h
  cases call with
  | write | copyPad => cases hcall
  | _ => rfl

theorem WritesInside.append {calls : List HostCall} (hcalls : WritesInside calls)
    (h : ∀ call ∈ more, call.isWrite = false) :
    WritesInside (calls ++ more) := by
  induction more using List.reverseRecOn with
  | nil => rwa [List.append_nil]
  | append_singleton more call ih =>
    rw [← List.append_assoc]
    refine (ih fun c hc => h c (List.mem_append_left _ hc)).concat ?_
    have hcall := h call (by simp)
    cases call with
    | write => cases hcall
    | _ => trivial

end HostCall

open HostCall

/-! ### Pads -/

namespace Pad

/-- Whether a pad shows the cells of a mirror, a row below their own, as blanks that are reversed where
a cell is lit. -/
structure Pictures (p : Pad) (scale : Int) (m : Mirror) : Prop where
  rows_eq : p.rows = m.height + 2
  columns_eq : p.columns = m.width * scale + 1
  cell_eq : ∀ x y v, 0 ≤ y → m.cells x y = some v → ∀ r c : Nat, (r : Int) = y + 1 → x * scale ≤ c →
    c < x * scale + scale → p.cell r c = ⟨' ', v != 0⟩

/-- Whether the first row of a pad shows a title up to a width, reversed. -/
def Bar (p : Pad) (width : Int) (title : String) : Prop :=
  ∀ c : Nat, c < width → p.cell 0 c = ⟨title.toList.getD c ' ', true⟩

variable {p : Pad} {scale width : Int} {m : Mirror} {title : String}

theorem pictures_blank (width height scale : Int) :
    (blank (height + 2) (width * scale + 1)).Pictures scale (.blank width height) where
  rows_eq := rfl
  columns_eq := rfl
  cell_eq := nofun

/-- The columns of different cells are different. -/
theorem eq_of_columns {x y c : Int} (hs : 0 ≤ scale) (hx : x * scale ≤ c) (hx' : c < x * scale + scale)
    (hy : y * scale ≤ c) (hy' : c < y * scale + scale) : x = y := by
  rcases Int.lt_trichotomy x y with h | h | h
  · have := Int.mul_le_mul_of_nonneg_right (show x + 1 ≤ y by omega) hs
    rw [Int.add_mul, Int.one_mul] at this
    omega
  · exact h
  · have := Int.mul_le_mul_of_nonneg_right (show y + 1 ≤ x by omega) hs
    rw [Int.add_mul, Int.one_mul] at this
    omega

/-- The write that draws a cell. -/
theorem Pictures.write_cell (h : p.Pictures scale m) (hs : 0 ≤ scale) {x y : Int} (hx : 0 ≤ x)
    (hy : 0 ≤ y) (v : UInt8) :
    (p.write (y + 1) (x * scale) (List.replicate scale.toNat ' ') (v != 0)).Pictures scale
      (m.take (.cell x y v)) where
  rows_eq := h.rows_eq
  columns_eq := h.columns_eq
  cell_eq := by
    intro x' y' v' hy' hv r c hr hc hc'
    rw [cell_write _ (by omega) (Int.mul_nonneg hx hs), List.length_replicate,
      List.getD_eq_getElem?_getD, List.getElem?_getD_replicate_default_eq]
    by_cases hxy : x' = x ∧ y' = y
    · obtain ⟨rfl, rfl⟩ := hxy
      simp only [Mirror.take, and_self, if_true, Option.some.injEq] at hv
      rw [if_pos ⟨hr, hc, by omega⟩, hv]
    · simp only [Mirror.take, hxy, if_false] at hv
      rw [if_neg, h.cell_eq x' y' v' hy' hv r c hr hc hc']
      rintro ⟨hr', hlo, hhi⟩
      exact hxy ⟨eq_of_columns hs hc hc' hlo (by omega), by omega⟩

theorem Bar.write_cell (h : p.Bar width title) (hs : 0 ≤ scale) {x y : Int} (hx : 0 ≤ x) (hy : 0 ≤ y)
    (text : List Char) (reverse : Bool) :
    (p.write (y + 1) (x * scale) text reverse).Bar width title := by
  intro c hc
  rw [cell_write _ (by omega) (Int.mul_nonneg hx hs), if_neg (by omega)]
  exact h c hc

theorem length_barText (text : List Char) (h : 0 ≤ width) :
    (Terminal.barText text width).length = width.toNat := by
  simp only [Terminal.barText, Terminal.firstChars, Memory.cutPosition, List.length_append,
    List.length_take, List.length_replicate, if_neg (Int.not_lt.2 h)]
  omega

/-- A title is cut to the width or filled with blanks. -/
theorem getD_barText (text : List Char) {c : Nat} (hc : c < width) :
    (Terminal.barText text width).getD c ' ' = text.getD c ' ' := by
  have hcut : Memory.cutPosition text.length width = min width.toNat text.length := by
    rw [Memory.cutPosition, if_neg (by omega)]
  simp only [Terminal.barText, Terminal.firstChars, hcut]
  by_cases hin : c < text.length
  · rw [List.getD_append _ _ _ _ (by rw [List.length_take]; omega), List.getD_eq_getElem?_getD,
      List.getElem?_take, if_pos (by omega), List.getD_eq_getElem?_getD]
  · have hout : text.length ≤ c := Nat.le_of_not_lt hin
    rw [List.getD_append_right _ _ _ _ (by rw [List.length_take]; omega), List.getD_eq_getElem?_getD,
      List.getElem?_getD_replicate_default_eq, List.getD_eq_default _ _ hout]

/-- The write that draws the title. -/
theorem Pictures.write_title (h : p.Pictures scale m) (text : List Char) :
    (p.write 0 0 text true).Pictures scale m where
  rows_eq := h.rows_eq
  columns_eq := h.columns_eq
  cell_eq := by
    intro x y v hy hv r c hr hc hc'
    rw [cell_write _ (Int.le_refl 0) (Int.le_refl 0), if_neg (by omega)]
    exact h.cell_eq x y v hy hv r c hr hc hc'

theorem bar_write_title (p : Pad) (title : String) (hw : 0 ≤ width) :
    (p.write 0 0 (Terminal.barText title.toList width) true).Bar width title := by
  intro c hc
  rw [cell_write _ (Int.le_refl 0) (Int.le_refl 0), length_barText _ hw,
    if_pos ⟨rfl, by omega, by omega⟩]
  exact congrArg (PadCell.mk · true) (getD_barText _ hc)

end Pad

/-! ### Terminals -/

namespace Terminal

/-- What a terminal knows of the calls made so far. -/
structure Accounts (t : Terminal) (calls : List HostCall) : Prop where
  inUse : padInUse calls = some (t.pad.rows, t.pad.columns)
  inside : WritesInside calls
  unsaved_eq : t.dirty = unsaved calls

/-- Whether a terminal shows its title and the cells of a mirror on its pad, after calls. -/
structure Stands (scale : Int) (t : Terminal) (calls : List HostCall) (m : Mirror) : Prop where
  scale_eq : t.scale = scale
  width_eq : t.canvas.width = m.width
  pictures : t.pad.Pictures scale m
  bar : t.pad.Bar (m.width * scale) t.title
  accounts : t.Accounts calls

variable {scale : Int} {t : Terminal} {calls : List HostCall} {m : Mirror}

theorem Accounts.write (h : t.Accounts calls) {row column : Int} {text : List Char}
    (hrow : 0 ≤ row ∧ row < t.pad.rows - 1)
    (hcolumn : 0 ≤ column ∧ column + text.length ≤ t.pad.columns - 1) (reverse : Bool) :
    (t.write row column text reverse).1.Accounts
      (calls ++ (t.write row column text reverse).2) where
  inUse := (padInUse_concat _ _).trans h.inUse
  inside := h.inside.concat ⟨_, _, h.inUse, hrow, hcolumn⟩
  unsaved_eq := (unsaved_concat calls (.write row column text reverse)).symm

/-- A terminal on whose pad a mirror is shown stands once its title is drawn. -/
theorem stands_drawTitle (hs : 1 ≤ scale) (hm : 0 ≤ m.width ∧ 0 ≤ m.height) (hscale : t.scale = scale)
    (hwidth : t.canvas.width = m.width) (hp : t.pad.Pictures scale m) (ha : t.Accounts calls) :
    t.drawTitle.1.Stands scale (calls ++ t.drawTitle.2) m := by
  have hbar : t.barWidth = m.width * scale := by rw [barWidth, hwidth, hscale]
  have hnonneg : 0 ≤ m.width * scale := Int.mul_nonneg hm.1 (by omega)
  unfold drawTitle
  split
  · next h₀ =>
    rw [List.append_nil]
    exact ⟨hscale, hwidth, hp, fun c hc => by omega, ha⟩
  · have hrows := hp.rows_eq
    have hcolumns := hp.columns_eq
    have hlength := Pad.length_barText t.title.toList hnonneg
    rw [hbar]
    refine ⟨hscale, hwidth, hp.write_title _, Pad.bar_write_title _ _ hnonneg, ?_⟩
    exact ha.write (by omega) (by omega) true

theorem stands_resize (hs : 1 ≤ scale) (hscale : t.scale = scale) {width height : Int}
    (hsize : 0 ≤ width ∧ 0 ≤ height) (hinside : WritesInside calls)
    (hunsaved : t.dirty = unsaved calls) :
    (t.resize width height).1.Stands scale (calls ++ (t.resize width height).2)
      (.blank width height) := by
  have hrows : height + titleRows + 1 = height + 2 := by
    rw [titleRows]
    omega
  subst hscale
  simp only [resize, hrows]
  rw [List.append_cons]
  refine stands_drawTitle hs hsize rfl rfl (Pad.pictures_blank width height t.scale) ?_
  exact ⟨padInUse_concat _ _, hinside.concat trivial,
    hunsaved.trans (unsaved_concat calls (.newPad _ _)).symm⟩

theorem Stands.paint (h : t.Stands scale calls m) (hs : 1 ≤ scale) {x y : Int}
    (hx : 0 ≤ x ∧ x < m.width) (hy : 0 ≤ y ∧ y < m.height) (v : UInt8) :
    (t.paint x y v).1.Stands scale (calls ++ (t.paint x y v).2) (m.take (.cell x y v)) := by
  have hs₀ : 0 ≤ scale := by omega
  have hrows := h.pictures.rows_eq
  have hcolumns := h.pictures.columns_eq
  have hlast := Int.mul_le_mul_of_nonneg_right (show x + 1 ≤ m.width by omega) hs₀
  rw [Int.add_mul, Int.one_mul] at hlast
  have hfirst := Int.mul_nonneg hx.1 hs₀
  unfold Terminal.paint
  rw [h.scale_eq]
  refine ⟨h.scale_eq, h.width_eq, h.pictures.write_cell hs₀ hx.1 hy.1 v,
    h.bar.write_cell hs₀ hx.1 hy.1 _ _, ?_⟩
  refine h.accounts.write ?_ ?_ _
  · rw [titleRows]
    omega
  · rw [List.length_replicate]
    omega

/-- What bringing a terminal up to date comes to. -/
theorem refresh_cases (t : Terminal) (size : Int × Int) (canResize : Bool) :
    ∃ looked : List HostCall, (∀ call ∈ looked, call.leavesPads = true) ∧
      t.refresh size canResize =
        if t.dirty = true ∨ t.seenSize ≠ some size then
          ({ t with seenSize := some size, dirty := false, pad := t.pad.copied },
            looked ++ [.copyPad (size.1 - 1) (size.2 - 1) t.pad])
        else (t, looked) := by
  by_cases hsize : t.seenSize = some size
  · refine ⟨[.askSize], by simp [leavesPads], ?_⟩
    cases hdirty : t.dirty <;> simp [refresh, look, copy, hsize, hdirty]
  · refine ⟨.askSize :: .clearScreen ::
      (if canResize then [.resizeTerminal size.1 size.2] else []) ++ [.refreshScreen], ?_, ?_⟩
    · cases canResize <;> simp [leavesPads]
    · simp [refresh, look, copy, hsize]

/-- Bringing a terminal up to date writes nothing, and copies the pad at most once. -/
theorem filter_isCopy_refresh (t : Terminal) (size : Int × Int) (canResize : Bool) :
    let r := t.refresh size canResize
    (∀ call ∈ r.2, call.isWrite = false) ∧ t.pad.copied = r.1.pad.copied ∧
      r.2.filter isCopy =
        if t.dirty = true ∨ t.seenSize ≠ some size then
          [.copyPad (size.1 - 1) (size.2 - 1) t.pad]
        else [] := by
  obtain ⟨looked, hlooked, heq⟩ := t.refresh_cases size canResize
  have hnone : looked.filter isCopy = [] := List.filter_eq_nil_iff.2 fun call hcall => by
    rw [(not_of_leavesPads (hlooked call hcall)).2]
    exact Bool.false_ne_true
  have hwrite (call : HostCall) (hcall : call ∈ looked) : call.isWrite = false :=
    (not_of_leavesPads (hlooked call hcall)).1
  rw [heq]
  split
  · refine ⟨?_, rfl, ?_⟩
    · intro call hcall
      rcases List.mem_append.1 hcall with hcall | hcall
      · exact hwrite call hcall
      · rw [List.mem_singleton.1 hcall]
        rfl
    · rw [List.filter_append, hnone]
      rfl
  · exact ⟨hwrite, rfl, hnone⟩

theorem Stands.refresh (h : t.Stands scale calls m) (size : Int × Int) (canResize : Bool) :
    (t.refresh size canResize).1.Stands scale (calls ++ (t.refresh size canResize).2) m := by
  obtain ⟨looked, hlooked, heq⟩ := t.refresh_cases size canResize
  have hinUse := padInUse_append calls hlooked
  have hinside := h.accounts.inside.append fun call hc => (not_of_leavesPads (hlooked call hc)).1
  rw [heq]
  split
  · rw [← List.append_assoc]
    refine ⟨h.scale_eq, h.width_eq, ⟨h.pictures.rows_eq, h.pictures.columns_eq, h.pictures.cell_eq⟩,
      h.bar, ?_, hinside.concat trivial, (unsaved_concat _ (.copyPad _ _ t.pad)).symm⟩
    exact (padInUse_concat _ (.copyPad _ _ t.pad)).trans (hinUse.trans h.accounts.inUse)
  · refine ⟨h.scale_eq, h.width_eq, h.pictures, h.bar, hinUse.trans h.accounts.inUse, hinside, ?_⟩
    exact h.accounts.unsaved_eq.trans (unsaved_append calls hlooked).symm

theorem canvas_refresh (t : Terminal) (size : Int × Int) (canResize : Bool) :
    (t.refresh size canResize).1.canvas = t.canvas ∧
      (t.refresh size canResize).1.title = t.title ∧
      (t.refresh size canResize).1.seenSize = some size := by
  obtain ⟨looked, -, heq⟩ := t.refresh_cases size canResize
  rw [heq]
  split
  · exact ⟨rfl, rfl, rfl⟩
  · next h =>
    rw [not_or, not_not] at h
    exact ⟨rfl, rfl, h.2⟩

theorem canvas_drawTitle (t : Terminal) :
    t.drawTitle.1.canvas = t.canvas ∧ t.drawTitle.1.title = t.title ∧
      t.drawTitle.1.seenSize = t.seenSize := by
  unfold drawTitle
  split <;> exact ⟨rfl, rfl, rfl⟩

theorem isCopy_of_mem_drawTitle {t : Terminal} {call : HostCall} (h : call ∈ t.drawTitle.2) :
    call.isCopy = false := by
  unfold drawTitle at h
  split at h
  · cases h
  · rw [List.mem_singleton.1 h]
    rfl

/-! ### Drawings -/

/-- A terminal `t₁` on the way to a frame, from the terminal `t` and after the calls `drawn`. -/
structure Underway (scale : Int) (t : Terminal) (calls : List HostCall) (f : Frame) (t₁ : Terminal)
    (drawn : List HostCall) (m : Mirror) : Prop where
  stands : t₁.Stands scale (calls ++ drawn) m
  kept : t₁.canvas = (t.canvas.draw f).1 ∧ t₁.title = t.title ∧ t₁.seenSize = t.seenSize
  size_eq : m.width = f.width ∧ m.height = f.height
  copies : ∀ call ∈ drawn, call.isCopy = false

section Drawing

variable {last : Option Frame} {f : Frame}

theorem Stands.underway_kept (h : t.Stands scale calls m)
    (hshows : Follower.Shows ⟨t.canvas, m⟩ last)
    (hfits : f.width = t.canvas.width ∧ f.height = t.canvas.height) :
    Underway scale t calls f { t with canvas := (t.canvas.draw f).1 } [] m := by
  obtain ⟨hwidth, hheight⟩ := hshows.size_eq
  have hdrawn := (t.canvas.size_draw f).1
  refine ⟨?_, ⟨rfl, rfl, rfl⟩, ⟨hwidth.symm.trans hfits.1.symm, hheight.symm.trans hfits.2.symm⟩, nofun⟩
  rw [List.append_nil]
  exact ⟨h.scale_eq, (hdrawn.trans hfits.1).trans hwidth, h.pictures, h.bar,
    ⟨h.accounts.inUse, h.accounts.inside, h.accounts.unsaved_eq⟩⟩

theorem Stands.underway_resized (h : t.Stands scale calls m) (hs : 1 ≤ scale) (hf : f.IsPicture) :
    let r := { t with canvas := (t.canvas.draw f).1 }.resize f.width f.height
    Underway scale t calls f r.1 r.2 (.blank f.width f.height) := by
  refine ⟨?_, ?_, ⟨rfl, rfl⟩, ?_⟩
  · exact stands_resize (t := { t with canvas := (t.canvas.draw f).1 }) hs h.scale_eq
      ⟨hf.width_nonneg, hf.height_nonneg⟩ h.accounts.inside h.accounts.unsaved_eq
  · obtain ⟨hwidth, hheight⟩ := t.canvas.size_draw f
    obtain ⟨hcanvas, htitle, hseen⟩ := canvas_drawTitle
      { t with
        canvas := { (t.canvas.draw f).1 with width := f.width, height := f.height }
        pad := .blank (f.height + titleRows + 1) (f.width * t.scale + 1) }
    refine ⟨hcanvas.trans ?_, htitle, hseen⟩
    rw [← hwidth, ← hheight]
  · intro call hcall
    rcases List.mem_cons.1 hcall with rfl | hcall
    · rfl
    · exact isCopy_of_mem_drawTitle hcall

theorem Underway.paint {t₁ : Terminal} {drawn : List HostCall}
    (h : Underway scale t calls f t₁ drawn m) (hs : 1 ≤ scale) {x y : Int} (hxy : f.Holds x y)
    (v : UInt8) :
    Underway scale t calls f (t₁.paint x y v).1 (drawn ++ (t₁.paint x y v).2)
      (m.take (.cell x y v)) := by
  rw [Frame.Holds, ← h.size_eq.1, ← h.size_eq.2] at hxy
  refine ⟨?_, h.kept, h.size_eq, ?_⟩
  · rw [← List.append_assoc]
    exact h.stands.paint hs hxy.1 hxy.2 v
  · intro call hcall
    rcases List.mem_append.1 hcall with hcall | hcall
    · exact h.copies call hcall
    · rw [List.mem_singleton.1 hcall]
      rfl

/-- A drawing of a picture shows it on the pad and then brings the terminal up to date. -/
theorem Stands.draw (h : t.Stands scale calls m) (hs : 1 ≤ scale)
    (hshows : Follower.Shows ⟨t.canvas, m⟩ last) (hf : f.IsPicture) (screen : Screen) :
    ∃ t₁ drawn, Underway scale t calls f t₁ drawn (.ofFrame f) ∧
      (Display.terminal t).draw screen f =
        let r := t₁.refresh (screen.rows, screen.columns) screen.canResize
        ⟨.terminal r.1, drawn ++ r.2, none⟩ := by
  let P (d : Display) (drawn : List HostCall) (m : Mirror) : Prop :=
    ∃ t₁, d = .terminal t₁ ∧ Underway scale t calls f t₁ drawn m
  have hcell : ∀ x y, f.Holds x y → ∀ d calls m, P d calls m →
      let step := .cell x y (f.cell x y)
      (d.take screen step).failure = none ∧
        P (d.take screen step).after (calls ++ (d.take screen step).calls) (m.take step) := by
    rintro x y hxy _ drawn m ⟨t₁, rfl, hunderway⟩
    exact ⟨rfl, _, rfl, hunderway.paint hs hxy _⟩
  obtain ⟨_, drawn, ⟨t₁, rfl, hunderway⟩, hdraw⟩ :=
    Display.draw_mirrors (.terminal t) screen (P := P) hshows hf
      (fun hfits => ⟨_, rfl, h.underway_kept hshows hfits⟩)
      ⟨rfl, _, rfl, h.underway_resized hs hf⟩ hcell
  exact ⟨t₁, drawn, hunderway, hdraw⟩

end Drawing

/-! ### Histories -/

open DisplayEvent

/-- A terminal that has followed events, with the mirror that it shows. -/
structure Follows (scale : Int) (t : Terminal) (calls : List HostCall) (events : List DisplayEvent)
    (m : Mirror) : Prop where
  stands : t.Stands scale calls m
  shows : Follower.Shows ⟨t.canvas, m⟩ (lastFrame events)
  title_eq : t.title = lastTitle events
  seen_eq : t.seenSize = lastSize events

variable {events : List DisplayEvent}

/-- A terminal as it is opened, with the call that makes its first pad. -/
def opened (scale : Int) : Terminal × List HostCall := (new scale).resize 0 0

theorem follows_opened (hs : 1 ≤ scale) :
    (opened scale).1.Follows scale (opened scale).2 [] (.blank 0 0) := by
  have hinside : WritesInside [] := fun front call back h => by
    cases front <;> cases h
  obtain ⟨hcanvas, htitle, hseen⟩ := canvas_drawTitle
    { new scale with pad := .blank (0 + titleRows + 1) (0 * scale + 1), canvas := ⟨0, 0, none⟩ }
  refine ⟨stands_resize hs rfl ⟨Int.le_refl 0, Int.le_refl 0⟩ hinside rfl, ?_, htitle, hseen⟩
  exact congrArg (Follower.mk · _) hcanvas

theorem Follows.setTitle (h : t.Follows scale calls events m) (hs : 1 ≤ scale) (text : String) :
    (t.setTitle text).1.Follows scale (calls ++ (t.setTitle text).2) (events ++ [.title text]) m := by
  obtain ⟨hcanvas, htitle, hseen⟩ := canvas_drawTitle { t with title := text }
  have ha := h.stands.accounts
  refine ⟨?_, ?_, ?_, ?_⟩
  · exact stands_drawTitle hs h.shows.size_nonneg h.stands.scale_eq h.stands.width_eq h.stands.pictures
      ⟨ha.inUse, ha.inside, ha.unsaved_eq⟩
  · rw [lastFrame_title]
    exact hcanvas.symm ▸ h.shows
  · rw [lastTitle_title]
    exact htitle
  · rw [lastSize_title]
    exact hseen.trans h.seen_eq

theorem Follows.draw (h : t.Follows scale calls events m) {f : Frame} (hf : f.IsPicture)
    (screen : Screen) {t₁ : Terminal} {drawn : List HostCall}
    (hunderway : Underway scale t calls f t₁ drawn (.ofFrame f)) :
    let r := t₁.refresh (screen.rows, screen.columns) screen.canResize
    r.1.Follows scale (calls ++ (drawn ++ r.2)) (events ++ [.draw screen f]) (.ofFrame f) := by
  intro r
  obtain ⟨hcanvas, htitle, hseen⟩ :=
    canvas_refresh t₁ (screen.rows, screen.columns) screen.canResize
  obtain ⟨hcanvas₁, htitle₁, -⟩ := hunderway.kept
  refine ⟨?_, ?_, ?_, ?_⟩
  · rw [← List.append_assoc]
    exact hunderway.stands.refresh _ _
  · rw [lastFrame_draw]
    exact ⟨hf, (hcanvas.trans hcanvas₁).trans (h.shows.draw hf).2.1, rfl⟩
  · rw [lastTitle_draw]
    exact (htitle.trans htitle₁).trans h.title_eq
  · rw [lastSize_draw]
    exact hseen

theorem follows_handleAll (hs : 1 ≤ scale) (h : ∀ event ∈ events, event.IsPicture) :
    let e := (Display.terminal (opened scale).1).handleAll events
    e.failure = none ∧ ∃ t m, e.after = .terminal t ∧
      t.Follows scale ((opened scale).2 ++ e.calls) events m := by
  refine Display.handleAll_induction
    (P := fun d calls events => ∃ t m, d = .terminal t ∧ t.Follows scale calls events m)
    ?_ (.terminal (opened scale).1) (opened scale).2 [] ⟨_, _, rfl, follows_opened hs⟩ h
  rintro _ calls events event ⟨t, m, rfl, hfollows⟩ hevent
  cases event with
  | title text => exact ⟨rfl, _, m, rfl, hfollows.setTitle hs text⟩
  | draw screen f =>
    obtain ⟨t₁, drawn, hunderway, hdraw⟩ := hfollows.stands.draw hs hfollows.shows hevent screen
    rw [show (Display.terminal t).handle (.draw screen f) = _ from hdraw]
    exact ⟨rfl, _, _, rfl, hfollows.draw hevent screen hunderway⟩

/-- After any titles and drawings in screens of any sizes, the pad shows the latest title and the frame,
no write fell outside it, and it is copied iff something was written or the screen has a new size. -/
theorem terminal_shows (scale : Int) (hscale : 1 ≤ scale) (events : List DisplayEvent)
    (hevents : ∀ event ∈ events, event.IsPicture) (screen : Screen) (f : Frame) (hf : f.IsPicture) :
    let before := (Display.terminal (opened scale).1).handleAll events
    let e := before.after.draw screen f
    let calls := (opened scale).2 ++ before.calls
    let size := (screen.rows, screen.columns)
    before.failure = none ∧ e.failure = none ∧
    ∃ t drawn refreshed p, e.after = .terminal t ∧ e.calls = drawn ++ refreshed ∧
      (∀ c : Nat, c < f.width * scale →
        t.pad.cell 0 c = ⟨(lastTitle events).toList.getD c ' ', true⟩) ∧
      (∀ x y, f.Holds x y → ∀ j : Nat, j < scale →
        t.pad.cell (1 + y).toNat (x * scale + j).toNat = ⟨' ', f.cell x y != 0⟩) ∧
      WritesInside (calls ++ e.calls) ∧
      padInUse (calls ++ e.calls) = some (f.height + 2, f.width * scale + 1) ∧
      (∀ call ∈ drawn, call.isCopy = false) ∧ (∀ call ∈ refreshed, call.isWrite = false) ∧
      p.copied = t.pad.copied ∧
      refreshed.filter isCopy =
        if unsaved (calls ++ drawn) = true ∨ lastSize events ≠ some size then
          [.copyPad (screen.rows - 1) (screen.columns - 1) p]
        else [] := by
  intro before e calls size
  obtain ⟨hfailure, t, m, hafter, hfollows⟩ := follows_handleAll hscale hevents
  obtain ⟨t₁, drawn, hunderway, hdraw⟩ := hfollows.stands.draw hscale hfollows.shows hf screen
  have he : e = ⟨.terminal (t₁.refresh size screen.canResize).1,
      drawn ++ (t₁.refresh size screen.canResize).2, none⟩ := by
    rw [← hdraw, ← hafter]
  have hnext := hfollows.draw hf screen hunderway
  obtain ⟨hnotWritten, hcopied, hcopies⟩ := filter_isCopy_refresh t₁ size screen.canResize
  have htitle := hnext.title_eq.trans (lastTitle_draw events screen f)
  have hpad := hnext.stands.pictures
  rw [hunderway.stands.accounts.unsaved_eq, hunderway.kept.2.2, hfollows.seen_eq] at hcopies
  rw [he]
  refine ⟨hfailure, rfl, _, drawn, _, t₁.pad, rfl, rfl, ?_, ?_, hnext.stands.accounts.inside, ?_,
    hunderway.copies, hnotWritten, hcopied, hcopies⟩
  · intro c hc
    rw [← htitle]
    exact hnext.stands.bar c hc
  · intro x y hxy j hj
    have hx := Int.mul_nonneg hxy.1.1 (show 0 ≤ scale by omega)
    have hy := hxy.2.1
    exact hpad.cell_eq x y (f.cell x y) hy (if_pos hxy) _ _ (by omega) (by omega) (by omega)
  · exact hnext.stands.accounts.inUse.trans (by rw [hpad.rows_eq, hpad.columns_eq]; rfl)

/-- A frame is drawn, then the title made longer than it, then another frame drawn on a screen that has
grown: the title is cut, the cells have changed places, and the pad is copied. -/
theorem terminal_shows_of_changes :
    let screen : Screen := ⟨24, 80, true⟩
    let taller : Screen := ⟨25, 80, true⟩
    let first : Frame := ⟨2, 1, ⟨#[1, 0]⟩⟩
    let second : Frame := ⟨2, 1, ⟨#[0, 1]⟩⟩
    let events : List DisplayEvent := [.title "ab", .draw screen first, .title "abcdef"]
    let e := ((Display.terminal (opened 2).1).handleAll events).after.draw taller second
    (∀ event ∈ events, event.IsPicture) ∧ second.IsPicture ∧ e.failure = none ∧
      ∃ t, e.after = .terminal t ∧ t.pad.cell 0 3 = ⟨'d', true⟩ ∧ t.pad.cell 1 1 = ⟨' ', false⟩ ∧
        t.pad.cell 1 2 = ⟨' ', true⟩ ∧ ∃ p, p.copied = t.pad.copied ∧ .copyPad 24 79 p ∈ e.calls := by
  intro screen taller first second events e
  have hevents : ∀ event ∈ events, event.IsPicture := by
    intro event hevent
    simp only [events, List.mem_cons, List.not_mem_nil, or_false] at hevent
    rcases hevent with rfl | rfl | rfl
    · trivial
    · exact ⟨by decide, by decide, by decide⟩
    · trivial
  have hsecond : second.IsPicture := ⟨by decide, by decide, by decide⟩
  obtain ⟨-, hfailure, t, drawn, refreshed, p, hafter, hcalls, hbar, hcells, -, -, -, -, hp, hcopies⟩ :=
    terminal_shows 2 (by decide) events hevents taller second hsecond
  have htitle : (lastTitle events).toList.getD 3 ' ' = 'd' := by decide +kernel
  have hcopy : .copyPad 24 79 p ∈ refreshed.filter isCopy := by
    rw [hcopies, if_pos (Or.inr (by decide))]
    exact List.mem_singleton_self _
  refine ⟨hevents, hsecond, hfailure, t, hafter, (hbar 3 (by decide)).trans (by rw [htitle]),
    hcells 0 0 (by decide) 1 (by decide), hcells 1 0 (by decide) 0 (by decide), p, hp, ?_⟩
  rw [hcalls]
  exact List.mem_append_right drawn (List.mem_filter.1 hcopy).1

end Terminal

end Chip8
