import Chip8.Host.FrontEnd
import Chip8.Proofs.Display.Histories

/-!
# What a window shows

After every drawing the bytes of a window are those of the frame, three for each cell
(`Window.Pictures`), although only cells that changed were sent.  The picture is shown by one sequence of
calls in a drawing that changed it, and by none otherwise.  The main statement is `window_shows`.
-/

namespace Chip8

/-- Whether a frame is another picture than the last: a first one, one of a new size, or one with a cell
that differs. -/
def Frame.Renews (f : Frame) (last : Option Frame) : Prop :=
  last = none ∨ ∃ g, last = some g ∧
    (¬g.SameSize f ∨ ∃ x y, f.Holds x y ∧ f.cell x y ≠ g.cell x y)

theorem Follower.Beginning.renews_iff {s : Follower} {last : Option Frame} {f : Frame}
    (hb : s.Beginning last f) (hf : f.IsPicture) :
    (s.canvas.fit f).1.shown ≠ some f.snapshot ↔ f.Renews last := by
  rw [hb.changed_iff hf, Frame.Renews]
  cases last with
  | none => simp
  | some g => by_cases hsize : g.SameSize f <;> simp [hsize]

/-- The place of a cell in a grid that is kept row after row. -/
theorem Mirror.place_bounds {m : Mirror} {x y : Int} (hx : 0 ≤ x ∧ x < m.width)
    (hy : 0 ≤ y ∧ y < m.height) :
    0 ≤ y * m.width + x ∧ y * m.width + x < m.width * m.height := by
  have hcells : 0 ≤ m.width * m.height := Int.mul_nonneg (by omega) (by omega)
  have hsize : ((Memory.zeros (m.width * m.height).toNat).size : Int) = m.width * m.height := by
    rw [Memory.size_zeros, Int.toNat_of_nonneg hcells]
  have hbounds := Frame.location_bounds (f := ⟨m.width, m.height, .zeros (m.width * m.height).toNat⟩)
    hsize ⟨hx, hy⟩
  exact ⟨hbounds.1, hsize ▸ hbounds.2⟩

theorem Mirror.place_inj {m : Mirror} {x y x' y' : Int} (hx : 0 ≤ x ∧ x < m.width)
    (hy : 0 ≤ y ∧ y < m.height) (hx' : 0 ≤ x' ∧ x' < m.width) (hy' : 0 ≤ y' ∧ y' < m.height)
    (h : y * m.width + x = y' * m.width + x') : x = x' ∧ y = y' :=
  Frame.location_inj (f := ⟨m.width, m.height, .zeros 0⟩) ⟨hx, hy⟩ ⟨hx', hy'⟩ h

/-- The colour of a cell with a value. -/
def Palette.colourOf (p : Palette) (value : UInt8) : Colour := if value = 0 then p.unlit else p.lit

namespace Window

/-! ### Bytes -/

/-- Whether the three bytes from a place on are those of a colour. -/
def HasColour (pixels : Array UInt8) (place : Nat) (c : Colour) : Prop :=
  pixels[place]? = some c.red ∧ pixels[place + 1]? = some c.green ∧ pixels[place + 2]? = some c.blue

section Bytes

variable {pixels : Array UInt8} {place place' : Nat} {c c' : Colour}

@[simp] theorem size_setColour (pixels : Array UInt8) (place : Nat) (c : Colour) :
    (setColour pixels place c).size = pixels.size := by
  simp [setColour]

theorem hasColour_setColour (h : place + 3 ≤ pixels.size) :
    HasColour (setColour pixels place c) place c := by
  simp only [HasColour, setColour, Array.getElem?_setIfInBounds, Array.size_setIfInBounds]
  refine ⟨?_, ?_, ?_⟩ <;> grind

theorem HasColour.setColour (h : HasColour pixels place c)
    (hne : place + 3 ≤ place' ∨ place' + 3 ≤ place) :
    HasColour (setColour pixels place' c') place c := by
  simp only [HasColour, Window.setColour, Array.getElem?_setIfInBounds] at h ⊢
  grind

theorem size_blankPixels (p : Palette) (width height : Int) :
    (blankPixels p width height).size = 3 * (width * height).toNat := by
  simp [blankPixels, Colour.bytes, Nat.mul_comm]

end Bytes

/-! ### Pictures -/

/-- Whether a window keeps the cells of a mirror: three bytes for each, row after row. -/
structure Pictures (w : Window) (m : Mirror) : Prop where
  width_eq : w.canvas.width = m.width
  size_eq : (w.pixels.size : Int) = 3 * (m.width * m.height)
  colour_eq : ∀ x y v, 0 ≤ x ∧ x < m.width → 0 ≤ y ∧ y < m.height → m.cells x y = some v →
    HasColour w.pixels (3 * (y * m.width + x)).toNat (w.palette.colourOf v)

variable {w : Window} {m : Mirror}

theorem pictures_resize (w : Window) {width height : Int} (h : 0 ≤ width ∧ 0 ≤ height) :
    (w.resize width height).Pictures (.blank width height) where
  width_eq := rfl
  size_eq := by
    show ((blankPixels w.palette width height).size : Int) = _
    have hcells := Int.mul_nonneg h.1 h.2
    rw [size_blankPixels]
    show _ = 3 * (width * height)
    omega
  colour_eq := nofun

/-- A cell of the picture can always be painted. -/
theorem Pictures.paint (h : w.Pictures m) {x y : Int} (hx : 0 ≤ x ∧ x < m.width)
    (hy : 0 ≤ y ∧ y < m.height) (v : UInt8) :
    ∃ pixels, w.paint x y v = some { w with pixels } ∧
      { w with pixels }.Pictures (m.take (.cell x y v)) := by
  obtain ⟨hfirst, hlast⟩ := Mirror.place_bounds hx hy
  have hsize := h.size_eq
  have hplace : w.pixelPlace x y = 3 * (y * m.width + x) := by
    rw [pixelPlace, h.width_eq, Int.mul_comm]
  have hstart : Memory.cutPosition w.pixels.size (w.pixelPlace x y) =
      (3 * (y * m.width + x)).toNat := by
    rw [hplace, Memory.cutPosition, if_neg (by omega)]
    omega
  have hstop : Memory.cutPosition w.pixels.size (w.pixelPlace x y + 3) =
      (3 * (y * m.width + x)).toNat + 3 := by
    rw [hplace, Memory.cutPosition, if_neg (by omega)]
    omega
  refine ⟨setColour w.pixels (3 * (y * m.width + x)).toNat (w.palette.colourOf v), ?_, ?_⟩
  · simp only [Window.paint, hstart, hstop, if_true]
    rfl
  · refine ⟨h.width_eq, ?_, ?_⟩
    · rw [size_setColour]
      exact hsize
    · intro x' y' v' hx' hy' hv
      by_cases hxy : x' = x ∧ y' = y
      · obtain ⟨rfl, rfl⟩ := hxy
        simp only [Mirror.take, and_self, if_true, Option.some.injEq] at hv
        rw [hv]
        exact hasColour_setColour (by omega)
      · simp only [Mirror.take, hxy, if_false] at hv
        obtain ⟨hfirst', -⟩ := Mirror.place_bounds (m := m) hx' hy'
        have hne : y' * m.width + x' ≠ y * m.width + x := fun he =>
          hxy (Mirror.place_inj hx' hy' hx hy he)
        refine (h.colour_eq x' y' v' hx' hy' hv).setColour ?_
        show (3 * (y' * m.width + x')).toNat + 3 ≤ _ ∨ _
        omega

/-! ### Drawings -/

/-- The calls that show a picture with a number of passes of smoothing. -/
def presentation (w : Window) (passes : Nat) : List HostCall :=
  .wrapPixels w.canvas.width w.canvas.height w.pixels :: List.replicate passes .smooth ++
    [.stretch w.width w.height, .blit 0 0, .flip]

theorem refresh_eq {n : Int} (hn : w.smoothing = some n) (changed : Bool) :
    w.refresh changed =
      (if changed = true ∧ w.canvas.width ≠ 0 then w.presentation n.toNat else [], true) := by
  unfold refresh showing presentation
  split
  · rw [hn]
  · rfl

/-- A window that has drawn frames with the settings of another, and shows a mirror. -/
structure Follows (opened w : Window) (last : Option Frame) (m : Mirror) : Prop where
  settings_eq : w = { opened with canvas := w.canvas, pixels := w.pixels }
  pictures : w.Pictures m
  shows : Follower.Shows ⟨w.canvas, m⟩ last

variable {opened : Window} {last : Option Frame} {f : Frame}

/-- A window `w'` on the way to a frame, from the window `w`, while the mirror is as given. -/
structure Underway (opened w : Window) (f : Frame) (w' : Window) (m : Mirror) : Prop where
  settings_eq : w' = { opened with canvas := (w.canvas.draw f).1, pixels := w'.pixels }
  pictures : w'.Pictures m
  size_eq : m.width = f.width ∧ m.height = f.height

theorem Follows.underway_kept (h : Follows opened w last m)
    (hfits : f.width = w.canvas.width ∧ f.height = w.canvas.height) :
    Underway opened w f { w with canvas := (w.canvas.draw f).1 } m := by
  obtain ⟨hwidth, hheight⟩ := h.shows.size_eq
  have hdrawn := (w.canvas.size_draw f).1
  refine ⟨?_, ?_, hwidth.symm.trans hfits.1.symm, hheight.symm.trans hfits.2.symm⟩
  · rw [h.settings_eq]
  · exact ⟨(hdrawn.trans hfits.1).trans hwidth, h.pictures.size_eq, h.pictures.colour_eq⟩

theorem Follows.underway_resized (h : Follows opened w last m) (hf : f.IsPicture) :
    Underway opened w f ({ w with canvas := (w.canvas.draw f).1 }.resize f.width f.height)
      (.blank f.width f.height) := by
  obtain ⟨hwidth, hheight⟩ := w.canvas.size_draw f
  have hcanvas : { (w.canvas.draw f).1 with width := f.width, height := f.height } =
      (w.canvas.draw f).1 := by rw [← hwidth, ← hheight]
  refine ⟨?_, pictures_resize _ ⟨hf.width_nonneg, hf.height_nonneg⟩, rfl, rfl⟩
  simp only [resize, hcanvas]
  rw [h.settings_eq]

theorem Underway.paint {w' : Window} (h : Underway opened w f w' m) {x y : Int} (hxy : f.Holds x y)
    (v : UInt8) :
    ∃ pixels, w'.paint x y v = some { w' with pixels } ∧
      Underway opened w f { w' with pixels } (m.take (.cell x y v)) := by
  rw [Frame.Holds, ← h.size_eq.1, ← h.size_eq.2] at hxy
  obtain ⟨pixels, hpaint, hpainted⟩ := h.pictures.paint hxy.1 hxy.2 v
  refine ⟨pixels, hpaint, ?_, hpainted, h.size_eq⟩
  rw [h.settings_eq]

/-- A drawing of a picture never fails, and shows it in the bytes and, if it is another one, by calls. -/
theorem Follows.draw (h : Follows opened w last m) {n : Int} (hn : opened.smoothing = some n)
    (hf : f.IsPicture) (screen : Screen) :
    ∃ w' changed, Follows opened w' (some f) (.ofFrame f) ∧ (changed = true ↔ f.Renews last) ∧
      (Display.window w).draw screen f =
        ⟨.window w',
          if changed = true ∧ f.width ≠ 0 then w'.presentation n.toNat else [], none⟩ := by
  -- nothing is called before the picture is complete
  let P (d : Display) (drawn : List HostCall) (m : Mirror) : Prop :=
    drawn = [] ∧ ∃ w', d = .window w' ∧ Underway opened w f w' m
  have hcell : ∀ x y, f.Holds x y → ∀ d calls m, P d calls m →
      let step := .cell x y (f.cell x y)
      (d.take screen step).failure = none ∧
        P (d.take screen step).after (calls ++ (d.take screen step).calls) (m.take step) := by
    rintro x y hxy _ _ m ⟨rfl, w', rfl, hunderway⟩
    obtain ⟨pixels, hpaint, hpainted⟩ := hunderway.paint hxy (f.cell x y)
    simp only [Display.take, Window.take, hpaint]
    exact ⟨trivial, rfl, _, rfl, hpainted⟩
  obtain ⟨_, _, ⟨rfl, w', rfl, hunderway⟩, hdraw⟩ :=
    Display.draw_mirrors (.window w) screen (P := P) h.shows hf
      (fun hfits => ⟨rfl, _, rfl, h.underway_kept hfits⟩)
      ⟨rfl, rfl, _, rfl, h.underway_resized hf⟩ hcell
  have hsettings := hunderway.settings_eq
  have hcanvas : w'.canvas = (w.canvas.draw f).1 := by rw [hsettings]
  have hsmoothing : w'.smoothing = some n := by
    rw [hsettings]
    exact hn
  refine ⟨w', _, ⟨hcanvas ▸ hsettings, hunderway.pictures, ?_⟩,
    decide_eq_true_iff.trans ((h.shows.beginning f).renews_iff hf), ?_⟩
  · rw [hcanvas]
    exact ⟨hf, (h.shows.draw hf).2.1, rfl⟩
  · rw [hdraw]
    simp only [Display.take, Window.take, refresh_eq hsmoothing, hcanvas, (w.canvas.size_draw f).1]
    rfl

/-! ### Histories -/

open DisplayEvent

variable {events : List DisplayEvent}

theorem follows_resize (asked : Setting) (width : Int) (palette : Palette) (smoothing : Option Int) :
    let w := new asked width palette smoothing
    Follows w (w.resize 0 0) none (.blank 0 0) :=
  ⟨rfl, pictures_resize _ ⟨Int.le_refl 0, Int.le_refl 0⟩, rfl⟩

theorem follows_handleAll {n : Int} (hn : opened.smoothing = some n)
    (hw : Follows opened w none (.blank 0 0)) (h : ∀ event ∈ events, event.IsPicture) :
    let e := (Display.window w).handleAll events
    e.failure = none ∧ ∃ w' m, e.after = .window w' ∧ Follows opened w' (lastFrame events) m := by
  refine Display.handleAll_induction
    (P := fun d _ events => ∃ w' m, d = .window w' ∧ Follows opened w' (lastFrame events) m)
    ?_ (.window w) [] [] ⟨w, _, rfl, hw⟩ h
  rintro _ calls events event ⟨w', m, rfl, hfollows⟩ hevent
  cases event with
  | title text =>
    rw [lastFrame_title]
    exact ⟨rfl, w', m, rfl, hfollows⟩
  | draw screen f =>
    obtain ⟨w'', changed, hdrawn, -, hdraw⟩ := hfollows.draw hn hevent screen
    rw [show (Display.window w').handle (.draw screen f) = _ from hdraw, lastFrame_draw]
    exact ⟨rfl, w'', _, rfl, hdrawn⟩

/-- An integer asks for that many passes of smoothing, and no setting for none. -/
theorem toPasses_elim (smoothing : Option Int) :
    (smoothing.elim .absent .integer : Setting).toPasses = some (smoothing.getD 0) := by
  cases smoothing with
  | none => rfl
  | some n => by_cases hn : n = 0 <;> simp [Setting.toPasses, Setting.isTrue, hn]

/-- Whatever titles and frames a window got before, a drawing leaves the colours of the cells row after
row, and hands them to the host, smoothed and stretched, iff they make another picture than the last. -/
theorem window_shows (asked : Setting) (width : Int) (palette : Palette) (smoothing : Option Int)
    (events : List DisplayEvent) (hevents : ∀ event ∈ events, event.IsPicture) (screen : Screen)
    (f : Frame) (hf : f.IsPicture) :
    let setting : Setting := smoothing.elim .absent .integer
    let opened := new asked width palette setting.toPasses
    let before := (Display.window (opened.resize 0 0)).handleAll events
    let e := before.after.draw screen f
    before.failure = none ∧ e.failure = none ∧
    ∃ w, e.after = .window w ∧
      (w.pixels.size : Int) = 3 * (f.width * f.height) ∧
      (∀ x y, f.Holds x y → HasColour w.pixels (3 * (y * f.width + x)).toNat
        (if f.cell x y = 0 then palette.unlit else palette.lit)) ∧
      (f.width ≠ 0 ∧ f.Renews (lastFrame events) →
        e.calls = .wrapPixels f.width f.height w.pixels ::
          List.replicate (max 0 (smoothing.getD 0)).toNat .smooth ++
            [.stretch opened.width opened.height, .blit 0 0, .flip]) ∧
      (¬(f.width ≠ 0 ∧ f.Renews (lastFrame events)) → e.calls = []) := by
  intro setting opened before e
  have hn : opened.smoothing = some (smoothing.getD 0) := toPasses_elim smoothing
  obtain ⟨hfailure, w₀, m, hafter, hfollows⟩ :=
    follows_handleAll hn (follows_resize asked width palette setting.toPasses) hevents
  obtain ⟨w, changed, hdrawn, hchanged, hdraw⟩ := hfollows.draw hn hf screen
  have he : e = _ := (congrArg (Display.draw screen f) hafter).trans hdraw
  have hcanvas : w.canvas = ⟨f.width, f.height, some f.snapshot⟩ := hdrawn.shows.2.1
  have hpalette : w.palette = palette := by
    rw [hdrawn.settings_eq]
    rfl
  have hpresentation : w.presentation (smoothing.getD 0).toNat =
      .wrapPixels f.width f.height w.pixels ::
        List.replicate (max 0 (smoothing.getD 0)).toNat .smooth ++
          [.stretch opened.width opened.height, .blit 0 0, .flip] := by
    rw [presentation, hcanvas, show (max 0 (smoothing.getD 0)).toNat = (smoothing.getD 0).toNat by omega]
    rw [hdrawn.settings_eq]
  have hcolours := hdrawn.pictures.colour_eq
  rw [hpalette] at hcolours
  rw [he, ← hchanged]
  refine ⟨hfailure, rfl, w, rfl, hdrawn.pictures.size_eq, ?_, ?_, ?_⟩
  · exact fun x y hxy => hcolours x y (f.cell x y) hxy.1 hxy.2 (if_pos hxy)
  · exact fun h => (if_pos ⟨h.2, h.1⟩).trans hpresentation
  · exact fun h => if_neg fun h' => h ⟨h'.2, h'.1⟩

/-- The second cell of a frame is lit: its bytes change, and the picture is smoothed twice and shown. -/
theorem window_shows_of_change :
    let screen : Screen := ⟨0, 0, false⟩
    let first : Frame := ⟨2, 1, ⟨#[1, 0]⟩⟩
    let second : Frame := ⟨2, 1, ⟨#[1, 1]⟩⟩
    let events : List DisplayEvent := [.title "picture", .draw screen first]
    let opened := new (.integer 640) 640 .standard (Setting.integer 2).toPasses
    let e := ((Display.window (opened.resize 0 0)).handleAll events).after.draw screen second
    (∀ event ∈ events, event.IsPicture) ∧ second.IsPicture ∧ e.failure = none ∧
      ∃ w, e.after = .window w ∧ HasColour w.pixels 0 ⟨0xDD, 0xDD, 0xDD⟩ ∧
        HasColour w.pixels 3 ⟨0xDD, 0xDD, 0xDD⟩ ∧
        e.calls = [.wrapPixels 2 1 w.pixels, .smooth, .smooth, .stretch (.integer 640) 320, .blit 0 0,
          .flip] := by
  intro screen first second events opened e
  have hevents : ∀ event ∈ events, event.IsPicture := by
    intro event hevent
    simp only [events, List.mem_cons, List.not_mem_nil, or_false] at hevent
    rcases hevent with rfl | rfl
    · trivial
    · exact ⟨by decide, by decide, by decide⟩
  have hsecond : second.IsPicture := ⟨by decide, by decide, by decide⟩
  have hrenews : second.Renews (lastFrame events) :=
    Or.inr ⟨first, rfl, Or.inr ⟨1, 0, by decide, by decide⟩⟩
  obtain ⟨-, hfailure, w, hafter, -, hcolours, hcalls, -⟩ :=
    window_shows (.integer 640) 640 .standard (some 2) events hevents screen second hsecond
  exact ⟨hevents, hsecond, hfailure, w, hafter, hcolours 0 0 (by decide), hcolours 1 0 (by decide),
    hcalls ⟨by decide, hrenews⟩⟩

end Window

end Chip8
