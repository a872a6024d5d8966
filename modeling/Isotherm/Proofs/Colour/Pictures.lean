import Isotherm.Picture
import Isotherm.Proofs.Colour.Raster
import Isotherm.Proofs.Formula.CanonicalText
import Isotherm.Proofs.RenderConfig
import Isotherm.Proofs.Sampling.NearZero
import Isotherm.Proofs.Sampling.Reach

/-!
# Pictures of sampled frames

Settings in their limits never fail to colour a frame. So an equation has a picture exactly where it
can be sampled and a double holds the time between two frames, and the picture has a panel for every
frame.
-/

namespace Isotherm

/-! ## Panels -/

/-- The raster of a frame: the colour of every cell, the row of the largest `y` on top. -/
def Frame.raster (f : Frame) (count : Int) : Raster :=
  ⟨f.rect.width, Raster.grid f.rect.height f.rect.width fun row column =>
    f.cellColour count (f.rect.minX + column) (f.rect.maxY - 1 - row)⟩

def Frame.panel (c : RenderConfig) (timeUsed : Bool) (f : Frame) : Panel :=
  ⟨(f.raster c.heatColourCount).scale c.scale.toNat,
    footerLabel f.t c.timeUpper timeUsed c.footerText⟩

namespace Picture

/-- The panels in their order. -/
def panels (p : Picture) : List Panel :=
  p.first :: p.later

variable {c : RenderConfig}

/-- Why the frames of the cells around the origin are not magnified. -/
def unmagnified? (arrays : Arrays) (c : RenderConfig) : Option Refusal :=
  if c.scale = 1 then none
  else arrays.magnifyRefusal? (2 * c.size).toNat (2 * c.size).toNat c.scale.toNat

/-- The sides of a frame of the cells around the origin. -/
theorem sides_raster {f : Frame} (hf : f.rect = c.gridRect) (count : Int) :
    (f.raster count).width = (2 * c.size).toNat ∧
      (f.raster count).rows.size = (2 * c.size).toNat := by
  obtain ⟨hheight, hwidth⟩ := Equation.sides_aroundOrigin c.size
  rw [Frame.raster, hf, RenderConfig.gridRect, hheight, hwidth]
  exact ⟨rfl, size_tabulate⟩

theorem magnify_raster (arrays : Arrays) (hc : c.InLimits) {f : Frame} (hf : f.rect = c.gridRect)
    (count : Int) :
    (f.raster count).magnify arrays c.scale.toNat =
      match unmagnified? arrays c with
      | some cause => .error cause
      | none => .ok ((f.raster count).scale c.scale.toNat) := by
  have hscale := hc.scale
  have hone : c.scale.toNat = 1 ↔ c.scale = 1 := by omega
  obtain ⟨hwidth, hheight⟩ := sides_raster hf count
  simp only [Raster.magnify, hwidth, hheight, hone]
  show (Refusal.guard id (unmagnified? arrays c)).bind _ = _
  cases unmagnified? arrays c <;> rfl

/-- In the limits of the settings a frame has a panel, unless it is not magnified. -/
theorem panel_eq (arrays : Arrays) (hc : c.InLimits) (timeUsed : Bool) {f : Frame}
    (hf : f.rect = c.gridRect) :
    panel arrays c (Heat.palette c.heatColourCount) timeUsed f =
      match unmagnified? arrays c with
      | some cause => .error (.refused cause)
      | none => .ok (f.panel c timeUsed) := by
  have hdistinct : c.heatColourCount ≤ 126 := hc.distinct
  have hchecked := Heat.checkedPalette_eq hc.coloured
  have hraster : Raster.ofFrame f c.heatColourCount (some (Heat.palette c.heatColourCount)) =
      .ok (f.raster c.heatColourCount) := by
    apply Raster.ofFrame_eq f hc.coloured (by omega)
    intro palette hpalette
    obtain rfl := Option.some.inj hpalette
    exact hchecked
  rw [panel, hraster]
  simp only [Except.mapError, bind, Except.bind, magnify_raster arrays hc hf]
  cases unmagnified? arrays c <;> rfl

theorem mapM_panel (arrays : Arrays) (hc : c.InLimits) (timeUsed : Bool) {frames : List Frame}
    (hframes : ∀ f ∈ frames, f.rect = c.gridRect) (hmagnified : unmagnified? arrays c = none) :
    frames.mapM (panel arrays c (Heat.palette c.heatColourCount) timeUsed) =
      .ok (frames.map (Frame.panel c timeUsed)) := by
  induction frames with
  | nil => rfl
  | cons f frames ih =>
    obtain ⟨hf, hrest⟩ := List.forall_mem_cons.mp hframes
    rw [List.mapM_cons, panel_eq arrays hc timeUsed hf, hmagnified, ih hrest]
    rfl

/-- What a picture shows: the settings, the text above, and one panel for each frame. Both its sides
are the cells between the bounds and the border around them, magnified. -/
structure Shows (p : Picture) (c : RenderConfig) (heading : String) (a : Animation) : Prop where
  path : p.path = c.outputFile
  heading : p.heading = heading
  scale : p.scale = c.scale.toNat
  width : (p.width : Int) = (2 * c.size + 2 * border) * c.scale
  height : (p.height : Int) = (2 * c.size + 2 * border) * c.scale
  panels : p.panels = a.frames.toList.map (Frame.panel c a.timeUsed)
  speed : p.framesPerSecond = 1000.0 / Integral.ofInt c.speedMs

theorem Shows.unique {p p' : Picture} {heading : String} {a : Animation} (h : p.Shows c heading a)
    (h' : p'.Shows c heading a) : p = p' := by
  obtain ⟨path, head, scale, first, later, speed⟩ := p
  obtain ⟨path', head', scale', first', later', speed'⟩ := p'
  obtain ⟨rfl, rfl⟩ := List.cons.inj (h.panels.trans h'.panels.symm)
  obtain rfl := h.path.trans h'.path.symm
  obtain rfl := h.heading.trans h'.heading.symm
  obtain rfl := h.scale.trans h'.scale.symm
  obtain rfl := h.speed.trans h'.speed.symm
  rfl

/-- Both sides of a picture with a frame of the cells around the origin. -/
theorem sides_eq (hc : c.InLimits) {p : Picture} {f : Frame} {timeUsed : Bool}
    (hf : f.rect = c.gridRect) (hfirst : p.first = f.panel c timeUsed)
    (hscale : p.scale = c.scale.toNat) :
    (p.width : Int) = (2 * c.size + 2 * border) * c.scale ∧
      (p.height : Int) = (2 * c.size + 2 * border) * c.scale := by
  obtain ⟨scale, hn⟩ := Int.eq_ofNat_of_zero_le (Int.le_of_lt hc.scale)
  obtain ⟨size, hsize⟩ := Int.eq_ofNat_of_zero_le (Int.le_of_lt hc.size)
  have hpos : 0 < scale := by
    have := hc.scale
    omega
  obtain ⟨hheight, hwidth⟩ := Equation.sides_aroundOrigin c.size
  rw [← RenderConfig.gridRect, ← hf] at hheight hwidth
  have hside : (2 * c.size).toNat = 2 * size := by omega
  have hmagnified : (f.raster c.heatColourCount).scale scale =
      ⟨f.rect.width * scale, Raster.grid (f.rect.height * scale) (f.rect.width * scale) _⟩ :=
    Raster.scale_grid hpos _
  have hdots : ((2 * size * scale + 2 * (border * scale) : Nat) : Int) =
      (2 * c.size + 2 * border) * c.scale := by
    rw [hsize, hn]
    push_cast
    ring
  rw [hn, Int.toNat_natCast] at hscale
  unfold width height
  rw [hfirst, hscale, Frame.panel, hn, Int.toNat_natCast, hmagnified, hwidth, hheight, hside, ← hn,
    ← hdots]
  exact ⟨rfl, congrArg (fun n : Nat => ((n + 2 * (border * scale) : Nat) : Int)) size_tabulate⟩

/-- Why a picture is not drawn: its frames are not magnified, its figure is not laid out, no double
holds the time between two frames, or it is not written. The first reason is the one that is
given. -/
def undrawn? (p : Picture) (arrays : Arrays) (plotting : Plotting) (c : RenderConfig) :
    Option RenderError :=
  (unmagnified? arrays c).map .refused
    <|> (plotting.layoutRefusal? p.heading p.scale p.first).map .refused
    <|> (if leastUnreached ≤ c.speedMs.natAbs then some .speed else none)
    <|> (plotting.saveRefusal? p).map .refused

/-- The time between two frames aside, it is a library that stands against a picture. -/
theorem refused_of_undrawn? {arrays : Arrays} {plotting : Plotting} {p : Picture}
    {cause : RenderError} (h : p.undrawn? arrays plotting c = some cause) :
    (∃ refusal, cause = .refused refusal) ∨ leastUnreached ≤ c.speedMs.natAbs := by
  simp only [undrawn?, Option.orElse_eq_orElse, Option.orElse_eq_or, Option.or_eq_some_iff,
    Option.map_eq_some_iff] at h
  rcases h with ⟨refusal, -, rfl⟩ | ⟨-, ⟨refusal, -, rfl⟩ | ⟨-, hspeed | ⟨-, refusal, -, rfl⟩⟩⟩
  · exact .inl ⟨refusal, rfl⟩
  · exact .inl ⟨refusal, rfl⟩
  · split at hspeed
    next hslow => exact .inr hslow
    next => cases hspeed
  · exact .inl ⟨refusal, rfl⟩

/-- Frames of the cells around the origin are drawn, unless a reason stands against it. -/
theorem ofFrames?_eq (arrays : Arrays) (plotting : Plotting) (hc : c.InLimits) (heading : String)
    (timeUsed : Bool) {first : Frame} {later : List Frame}
    (hframes : ∀ f ∈ first :: later, f.rect = c.gridRect) :
    let p : Picture := ⟨c.outputFile, heading, c.scale.toNat, first.panel c timeUsed,
      later.map (Frame.panel c timeUsed), 1000.0 / Integral.ofInt c.speedMs⟩
    ofFrames? arrays plotting c heading timeUsed (first :: later) =
      match p.undrawn? arrays plotting c with
      | some cause => .error cause
      | none => .ok (some p) := by
  intro p
  obtain ⟨hfirst, hlater⟩ := List.forall_mem_cons.mp hframes
  have hchecked := Heat.checkedPalette_eq hc.coloured
  have hpanel := panel_eq arrays hc timeUsed hfirst
  unfold ofFrames? undrawn?
  rw [hchecked]
  cases hmagnified : unmagnified? arrays c with
  | some cause =>
    rw [hmagnified] at hpanel
    simp only [Except.mapError, bind, Except.bind, hpanel]
    rfl
  | none =>
    rw [hmagnified] at hpanel
    simp only [Except.mapError, bind, Except.bind, hpanel,
      mapM_panel arrays hc timeUsed hlater hmagnified]
    cases plotting.layoutRefusal? heading c.scale.toNat (first.panel c timeUsed) with
    | some cause => rfl
    | none =>
      by_cases hspeed : c.speedMs.natAbs < leastUnreached
      · rw [Scalar.toFloat?_integer_eq, if_pos hspeed, if_neg (Nat.not_le.mpr hspeed)]
        show (Refusal.guard _ (plotting.saveRefusal? p)).bind _ = _
        cases plotting.saveRefusal? p <;> rfl
      · rw [Scalar.toFloat?_integer_eq, if_neg hspeed, if_pos (Nat.not_lt.mp hspeed)]
        rfl

end Picture

namespace Animation

/-- Frames are only ever added. -/
theorem exists_cons_of_push {e : Equation} {arrays : Arrays} {rect : Rect} {cellSize : Float}
    {times : List Int} {a a' : Animation} {first : Frame} {later : List Frame}
    (h : times.foldlM (fun a t => (e.sample arrays rect (.integer t) cellSize).map a.push) a = .ok a')
    (ha : a.frames.toList = first :: later) : ∃ later', a'.frames.toList = first :: later' := by
  induction times generalizing a later with
  | nil =>
    obtain rfl := Except.ok.inj h
    exact ⟨later, ha⟩
  | cons t times ih =>
    rw [List.foldlM_cons] at h
    cases hs : e.sample arrays rect (.integer t) cellSize with
    | error cause =>
      rw [hs] at h
      cases h
    | ok s =>
      rw [hs] at h
      have hpush : (a.push s).frames.toList = first :: (later ++ [s.frame]) := by
        simp [push, ha]
      exact ih h hpush

end Animation

namespace Equation

/-- An animation has a first frame. -/
theorem exists_cons_of_animate {e : Equation} {arrays : Arrays} {lower upper : Int} {rect : Rect}
    {cellSize : Float} {a : Animation} (h : e.animate arrays lower upper rect cellSize = .ok a) :
    ∃ first later, a.frames.toList = first :: later := by
  unfold animate at h
  simp only [bind, Except.bind] at h
  split at h
  · cases h
  next s hs =>
    split at h
    · obtain ⟨later, hlater⟩ := Animation.exists_cons_of_push h rfl
      exact ⟨s.frame, later, hlater⟩
    · obtain rfl := Except.ok.inj h
      exact ⟨s.frame, [], rfl⟩

/-- Frames that fill the cells around the origin have a picture that shows them, and it is drawn
unless a reason stands against it. -/
theorem ofFrames?_shows {e : Equation} {arrays : Arrays} (plotting : Plotting) {c : RenderConfig}
    {cellSize : Float} {a : Animation}
    (ha : e.animate arrays c.timeLower c.timeUpper c.gridRect cellSize = .ok a)
    {c' : RenderConfig} (hc' : c'.InLimits) (hrect : c'.gridRect = c.gridRect) (heading : String) :
    ∃ p : Picture, p.Shows c' heading a ∧
      Picture.ofFrames? arrays plotting c' heading a.timeUsed a.frames.toList =
        match p.undrawn? arrays plotting c' with
        | some cause => .error cause
        | none => .ok (some p) := by
  obtain ⟨first, later, hframes⟩ := exists_cons_of_animate ha
  have hrects : ∀ f ∈ first :: later, f.rect = c'.gridRect := by
    intro f hf
    rw [← hframes, Array.mem_toList_iff] at hf
    rw [hrect]
    exact (counted_of_animate ha f hf).rect_eq
  let p : Picture := ⟨c'.outputFile, heading, c'.scale.toNat, first.panel c' a.timeUsed,
    later.map (Frame.panel c' a.timeUsed), 1000.0 / Integral.ofInt c'.speedMs⟩
  obtain ⟨hwidth, hheight⟩ :=
    @Picture.sides_eq c' hc' p first a.timeUsed (hrects first List.mem_cons_self) rfl rfl
  refine ⟨p, ⟨rfl, rfl, rfl, hwidth, hheight, ?_, rfl⟩, ?_⟩
  · rw [hframes]
    rfl
  · rw [hframes]
    exact Picture.ofFrames?_eq arrays plotting hc' heading a.timeUsed hrects

/-! ## Rendering -/

section

variable (e : Equation) (arrays : Arrays) (plotting : Plotting) (c : RenderConfig)
  (cellSize : Float) (heading : String)

/-- How the rendering of an equation under a heading ends. -/
inductive Rendered : Except RenderError (Option Picture) → Prop where
  | shown {a : Animation} {p : Picture}
      (animation : e.animate arrays c.timeLower c.timeUpper c.gridRect cellSize = .ok a)
      (shows : p.Shows c heading a) (drawn : p.undrawn? arrays plotting c = none) :
      Rendered (.ok (some p))
  | unsampled {cause : SampleError}
      (h : Unsampled e arrays c.size c.timeLower c.timeUpper cellSize cause) :
      Rendered (.error (.sampling cause))
  /-- All is sampled, but the picture that shows it is not drawn. -/
  | undrawn {a : Animation} {p : Picture} {cause : RenderError}
      (animation : e.animate arrays c.timeLower c.timeUpper c.gridRect cellSize = .ok a)
      (shows : p.Shows c heading a) (h : p.undrawn? arrays plotting c = some cause) :
      Rendered (.error cause)

end

/-- Settings in their limits are never what stops a rendering, nor is a missing text or colour. -/
theorem rendered {lhs rhs : Expr} (hl : lhs.hasForeign = false) (hr : rhs.hasForeign = false)
    (arrays : Arrays) (plotting : Plotting) {c : RenderConfig} (hc : c.InLimits)
    (cellSize : Float) :
    Rendered (ofSides lhs rhs) arrays plotting c cellSize (textOfSides lhs rhs)
      ((ofSides lhs rhs).render arrays plotting c cellSize) := by
  have hvalid := (RenderConfig.invalid?_eq_none_iff c).mpr hc
  have htext := checkedText_ofSides hl hr
  have hrun : (ofSides lhs rhs).render arrays plotting c cellSize = (do
      let a ← ((ofSides lhs rhs).animate arrays c.timeLower c.timeUpper c.gridRect
        cellSize).mapError .sampling
      Picture.ofFrames? arrays plotting c (textOfSides lhs rhs) a.timeUsed a.frames.toList) := by
    unfold render
    rw [hvalid, htext]
    rfl
  rw [hrun]
  cases ha : (ofSides lhs rhs).animate arrays c.timeLower c.timeUpper c.gridRect cellSize with
  | error cause => exact .unsampled ((animate_eq_error_iff rfl hc.size cause).mp ha)
  | ok a =>
    show Rendered _ _ _ _ _ _
      (Picture.ofFrames? arrays plotting c (textOfSides lhs rhs) a.timeUsed a.frames.toList)
    obtain ⟨p, hshows, heq⟩ := ofFrames?_shows plotting ha hc rfl (textOfSides lhs rhs)
    rw [heq]
    cases hdrawn : p.undrawn? arrays plotting c with
    | none => exact .shown ha hshows hdrawn
    | some cause => exact .undrawn ha hshows hdrawn

end Equation
end Isotherm
