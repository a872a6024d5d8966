import Isotherm.CommandLine.Run
import Isotherm.Proofs.Colour.Pictures
import Isotherm.Proofs.Formula.Overflow

/-!
# Outcomes of a formula

A formula on the command line ends in one of three statuses, decided in one order: the settings are
checked, then the formula is read, then the equation is drawn. Only drawing can fail without a
status, where the settings are past what doubles and arrays hold, or a picture is not drawn.
-/

namespace Isotherm.CommandLine

variable {τ : Type}

namespace Arguments

/-- The equation that is drawn of one that was read. -/
def shown (a : Arguments) (e : Equation) : Equation :=
  if a.simplify then e.simplify else e

/-- What is said before an equation with the given text is drawn. -/
def announcement (a : Arguments) (text : String) : List String :=
  if a.simplify then ["Simplified: " ++ text] else []

/-- What is drawn for an equation: its frames, and the picture that shows them under its text. -/
structure Draws (a : Arguments) (lib : Library τ) (c : RenderConfig) (e : Equation) (text : String)
    (p : Picture) : Prop where
  printed : e.checkedText = .ok text
  animated : ∃ animation, e.animate lib.arrays c.timeLower c.timeUpper c.gridRect a.pointSize =
    .ok animation ∧ p.Shows c text animation

/-- The picture of the equation is not drawn. -/
def Undrawn (a : Arguments) (lib : Library τ) (c : RenderConfig) (e : Equation)
    (cause : RenderError) : Prop :=
  ∃ text p, a.Draws lib c e text p ∧ p.undrawn? lib.arrays lib.plotting c = some cause

/-- Why the equation cannot be drawn: the settings are past what arrays or doubles hold, or the
picture of it is not drawn. -/
inductive Undrawable (a : Arguments) (lib : Library τ) (e : Equation) : RenderError → Prop where
  | unsampled {cause : SampleError}
      (h : (a.shown e).Unsampled lib.arrays a.size a.timeLower a.config.timeUpper a.pointSize
        cause) :
      Undrawable a lib e (.sampling cause)
  | undrawn {cause : RenderError} (h : a.Undrawn lib a.config (a.shown e) cause) :
      Undrawable a lib e cause

/-- Some setting is past what arrays or doubles hold. -/
def OutOfReach (a : Arguments) (arrays : Arrays) : Prop :=
  ¬arrays.Grants (.aroundOrigin a.size) ∨ leastUnreached ≤ a.size ∨
    leastUnreached ≤ a.timeLower.natAbs ∨ leastUnreached < a.config.timeUpper ∨
    (Picture.unmagnified? arrays a.config).isSome = true ∨ leastUnreached ≤ a.speed.natAbs

theorem outOfReach_of_unsampled {a : Arguments} {arrays : Arrays} {e : Equation}
    {cause : SampleError}
    (h : e.Unsampled arrays a.size a.timeLower a.config.timeUpper a.pointSize cause) :
    a.OutOfReach arrays := by
  cases h with
  | axis hrefused => exact .inl fun hgranted => by cases hgranted.columns.symm.trans hrefused
  | edge _ hsize => exact .inr (.inl hsize)
  | grid _ _ hrefused =>
    refine .inl fun hgranted => ?_
    have hgrid := hgranted.grid
    obtain ⟨hheight, hwidth⟩ := Equation.sides_aroundOrigin a.size
    rw [hheight, hwidth] at hgrid
    cases hgrid.symm.trans hrefused
  | firstTime _ hlower => exact .inr (.inr (.inl hlower))
  | laterTime _ _ _ _ hupper => exact .inr (.inr (.inr (.inl hupper)))

/-- What was sampled is drawn where all settings are in reach, if the library of figures draws
it. -/
theorem outOfReach_of_undrawn {a : Arguments} {lib : Library τ} {p : Picture} {cause : RenderError}
    (h : p.undrawn? lib.arrays lib.plotting a.config = some cause)
    (hlayout : lib.plotting.layoutRefusal? p.heading p.scale p.first = none)
    (hsave : lib.plotting.saveRefusal? p = none) : a.OutOfReach lib.arrays := by
  cases hmagnified : Picture.unmagnified? lib.arrays a.config with
  | some refusal =>
    refine .inr (.inr (.inr (.inr (.inl ?_))))
    rw [hmagnified]
    rfl
  | none =>
    refine .inr (.inr (.inr (.inr (.inr ?_))))
    by_contra hspeed
    have hfast : ¬leastUnreached ≤ a.config.speedMs.natAbs := hspeed
    simp [Picture.undrawn?, hmagnified, hlayout, hsave, hfast] at h

/-- Every equation can be drawn where all settings are in reach, if the library of figures draws
it. -/
theorem Undrawable.outOfReach {a : Arguments} {lib : Library τ} {e : Equation}
    {cause : RenderError} (h : a.Undrawable lib e cause)
    (hplotting : ∀ text p, a.Draws lib a.config (a.shown e) text p →
      lib.plotting.saveRefusal? p = none ∧
      lib.plotting.layoutRefusal? p.heading p.scale p.first = none) : a.OutOfReach lib.arrays := by
  cases h with
  | unsampled h => exact outOfReach_of_unsampled h
  | undrawn h =>
    obtain ⟨text, p, draws, hcause⟩ := h
    obtain ⟨hsave, hlayout⟩ := hplotting _ _ draws
    exact outOfReach_of_undrawn hcause hlayout hsave

/-- What is printed and drawn with each status. -/
inductive Reports (a : Arguments) (lib : Library τ) (formula : String) : Outcome → Prop where
  | invalid {cause : ConfigError} (h : a.config.invalid? = some cause) :
      Reports a lib formula ⟨2, ["Error: " ++ cause.message], none, []⟩
  | unread {error : ParseError} (valid : a.config.invalid? = none)
      (h : Equation.parse formula = .error error) :
      Reports a lib formula ⟨1, ["Error: " ++ error.message], none, []⟩
  | drawn {e : Equation} {text : String} {p : Picture} (valid : a.config.invalid? = none)
      (parsed : Equation.parse formula = .ok e) (draws : a.Draws lib a.config (a.shown e) text p)
      (drawn : p.undrawn? lib.arrays lib.plotting a.config = none) :
      Reports a lib formula ⟨0, a.announcement text ++ ["Done see " ++ a.outputFile], none, [p]⟩

/-- How a formula ends that was to be drawn. -/
inductive Ran (a : Arguments) (lib : Library τ) (formula : String) :
    Except Crash Outcome → Prop where
  | reported {o : Outcome} (h : Reports a lib formula o) : Ran a lib formula (.ok o)
  | crashed {e : Equation} {cause : RenderError} (valid : a.config.invalid? = none)
      (parsed : Equation.parse formula = .ok e) (h : a.Undrawable lib e cause) :
      Ran a lib formula (.error (.render cause))

variable {a : Arguments} {lib : Library τ} {formula : String}

theorem latexLines_eq_nil (h : a.latex = false) (lhs rhs : Expr) :
    a.latexLines lib lhs rhs = .ok [] := by
  rw [latexLines, h]
  rfl

/-- A formula that was read is drawn as it is or simplified, and only then is anything printed
besides. -/
theorem ran_runSides (hlatex : a.latex = false) (hvalid : a.config.invalid? = none) {e : Equation}
    (hparsed : Equation.parse formula = .ok e) {lhs rhs : Expr} (hl : lhs.hasForeign = false)
    (hr : rhs.hasForeign = false) (hshown : a.shown e = Equation.ofSides lhs rhs) :
    Ran a lib formula (a.runSides lib a.config formula
      (a.announcement (Equation.textOfSides lhs rhs)) lhs rhs) := by
  have hlimits := (RenderConfig.invalid?_eq_none_iff a.config).mp hvalid
  have hrendered := Equation.rendered hl hr lib.arrays lib.plotting hlimits a.pointSize
  have htext := Equation.checkedText_ofSides hl hr
  unfold runSides
  rw [latexLines_eq_nil hlatex]
  rw [← hshown] at hrendered htext ⊢
  simp only [bind, Except.bind, List.append_nil]
  cases hrun : (a.shown e).render lib.arrays lib.plotting a.config a.pointSize with
  | error cause =>
    rw [hrun] at hrendered
    cases hrendered with
    | unsampled h => exact .crashed hvalid hparsed (.unsampled h)
    | undrawn hanimated hshows h =>
      exact .crashed hvalid hparsed (.undrawn ⟨_, _, ⟨htext, _, hanimated, hshows⟩, h⟩)
  | ok picture =>
    rw [hrun] at hrendered
    cases hrendered with
    | @shown animation p hanimated hshows hdrawn =>
      have hpath : p.path = a.outputFile := hshows.path
      simp only [Except.mapError, pure, Except.pure, Outcome.rendered, hpath]
      exact .reported (.drawn hvalid hparsed ⟨htext, _, hanimated, hshows⟩ hdrawn)

/-- What is drawn of a formula that was read has both sides. -/
theorem exists_shown {e : Equation} (h : Equation.parse formula = .ok e) :
    ∃ lhs rhs, a.shown e = Equation.ofSides lhs rhs ∧ Equation.Readable lhs rhs := by
  obtain ⟨ts, lhs, rhs, -, rfl, hreadable, -⟩ := Equation.exists_readable_of_parse h
  unfold shown
  cases a.simplify with
  | false => exact ⟨lhs, rhs, rfl, hreadable⟩
  | true => exact ⟨lhs.simplify false, rhs.simplify false, rfl, hreadable.simplify⟩

/-- A formula that can be read is drawn, as it is or simplified. -/
theorem runFormula_of_parse {e : Equation} (h : Equation.parse formula = .ok e) {lhs rhs : Expr}
    (hshown : a.shown e = Equation.ofSides lhs rhs) :
    a.runFormula lib a.config formula =
      a.runSides lib a.config formula (a.announcement (Equation.textOfSides lhs rhs)) lhs rhs := by
  obtain ⟨ts, l, r, -, rfl, -⟩ := Equation.exists_readable_of_parse h
  unfold shown at hshown
  unfold runFormula announcement
  rw [h]
  cases hsimplify : a.simplify <;> rw [hsimplify] at hshown <;> cases hshown <;> rfl

theorem ran_runFormula (hlatex : a.latex = false) (hvalid : a.config.invalid? = none) :
    Ran a lib formula (a.runFormula lib a.config formula) := by
  cases hparsed : Equation.parse formula with
  | error error =>
    rw [runFormula, hparsed]
    exact .reported (.unread hvalid hparsed)
  | ok e =>
    obtain ⟨lhs, rhs, hshown, hreadable⟩ := exists_shown (a := a) hparsed
    obtain ⟨hl, hr⟩ := hreadable.hasForeign
    rw [runFormula_of_parse hparsed hshown]
    exact ran_runSides hlatex hvalid hparsed hl hr hshown

/-- The settings are checked before the formula is looked at. -/
theorem ran_run (hformula : a.formula = some formula) (hnonempty : formula ≠ "")
    (hlist : a.listFunctions = false) (hrandom : a.random = false) (hlatex : a.latex = false)
    (clock : Nat) : Ran a lib formula (a.run lib clock) := by
  have hempty : formula.isEmpty = false := by simpa using hnonempty
  unfold run
  rw [hlist, hrandom, hformula]
  simp only [Bool.false_eq_true, if_false, hempty]
  cases hvalid : a.config.invalid? with
  | some cause => exact .reported (.invalid hvalid)
  | none => exact ran_runFormula hlatex hvalid

/-! ## One status for each end -/

theorem isBound_shown {e : Equation} (h : Equation.parse formula = .ok e) :
    (a.shown e).isBound = true := by
  obtain ⟨lhs, rhs, hshown, -⟩ := exists_shown (a := a) h
  rw [hshown]
  rfl

theorem one_le_size (h : a.config.invalid? = none) : 1 ≤ a.size :=
  ((RenderConfig.invalid?_eq_none_iff a.config).mp h).size

theorem Draws.unique {c : RenderConfig} {e : Equation} {text text' : String} {p p' : Picture}
    (h : a.Draws lib c e text p) (h' : a.Draws lib c e text' p') : p = p' := by
  obtain ⟨animation, ha, hshows⟩ := h.animated
  obtain ⟨animation', ha', hshows'⟩ := h'.animated
  obtain rfl := Except.ok.inj (ha.symm.trans ha')
  obtain rfl := Except.ok.inj (h.printed.symm.trans h'.printed)
  exact hshows.unique hshows'

/-- Whether a picture is drawn is decided by the picture alone. -/
theorem Draws.undrawn_iff {c : RenderConfig} {e : Equation} {text : String} {p : Picture}
    (h : a.Draws lib c e text p) (cause : RenderError) :
    a.Undrawn lib c e cause ↔ p.undrawn? lib.arrays lib.plotting c = some cause := by
  constructor
  · intro ⟨text', p', h', hcause⟩
    rwa [h.unique h']
  · intro hcause
    exact ⟨text, p, h, hcause⟩

namespace Undrawable

variable {e : Equation} {cause : RenderError}

/-- What was drawn was sampled, so nothing stood against it. -/
theorem not_drawn (h : a.Undrawable lib e cause) (hb : (a.shown e).isBound = true)
    (hsize : 1 ≤ a.size) {text : String} {p : Picture}
    (draws : a.Draws lib a.config (a.shown e) text p)
    (hdrawn : p.undrawn? lib.arrays lib.plotting a.config = none) : False := by
  cases h with
  | unsampled h =>
    obtain ⟨animation, ha, -⟩ := draws.animated
    cases ha.symm.trans (h.animate_eq hb hsize)
  | undrawn h => cases hdrawn.symm.trans ((draws.undrawn_iff cause).mp h)

theorem unique (h : a.Undrawable lib e cause) (hb : (a.shown e).isBound = true)
    (hsize : 1 ≤ a.size) {cause' : RenderError} (h' : a.Undrawable lib e cause') :
    cause = cause' := by
  cases h with
  | unsampled h =>
    have hfails := h.animate_eq hb hsize
    cases h' with
    | unsampled h' => rw [Except.error.inj (hfails.symm.trans (h'.animate_eq hb hsize))]
    | undrawn h' =>
      obtain ⟨text, p, draws, -⟩ := h'
      obtain ⟨animation, ha, -⟩ := draws.animated
      cases hfails.symm.trans ha
  | undrawn h =>
    obtain ⟨text, p, draws, hcause⟩ := h
    cases h' with
    | unsampled h' =>
      obtain ⟨animation, ha, -⟩ := draws.animated
      cases ha.symm.trans (h'.animate_eq hb hsize)
    | undrawn h' => exact Option.some.inj (hcause.symm.trans ((draws.undrawn_iff cause').mp h'))

end Undrawable

namespace Ran

variable {r : Except Crash Outcome}

theorem status_two_iff (h : Ran a lib formula r) :
    (∃ o, r = .ok o ∧ o.status = 2) ↔ ∃ cause, a.config.invalid? = some cause := by
  constructor
  · intro ⟨o, hr, hstatus⟩
    subst hr
    cases h with
    | reported h =>
      cases h with
      | invalid hinvalid => exact ⟨_, hinvalid⟩
      | unread => cases hstatus
      | drawn => cases hstatus
  · intro ⟨cause, hinvalid⟩
    cases h with
    | crashed hvalid => cases hvalid.symm.trans hinvalid
    | reported h =>
      cases h with
      | invalid => exact ⟨_, rfl, rfl⟩
      | unread hvalid => cases hvalid.symm.trans hinvalid
      | drawn hvalid => cases hvalid.symm.trans hinvalid

theorem status_one_iff (h : Ran a lib formula r) :
    (∃ o, r = .ok o ∧ o.status = 1) ↔
      a.config.invalid? = none ∧ ∃ error, Equation.parse formula = .error error := by
  constructor
  · intro ⟨o, hr, hstatus⟩
    subst hr
    cases h with
    | reported h =>
      cases h with
      | invalid => cases hstatus
      | unread hvalid herror => exact ⟨hvalid, _, herror⟩
      | drawn => cases hstatus
  · intro ⟨hvalid, error, herror⟩
    cases h with
    | crashed _ hparsed => cases hparsed.symm.trans herror
    | reported h =>
      cases h with
      | invalid hinvalid => cases hvalid.symm.trans hinvalid
      | unread => exact ⟨_, rfl, rfl⟩
      | drawn _ hparsed => cases hparsed.symm.trans herror

theorem status_zero_iff (h : Ran a lib formula r) :
    (∃ o, r = .ok o ∧ o.status = 0) ↔
      a.config.invalid? = none ∧ ∃ e, Equation.parse formula = .ok e ∧
        ∀ cause, ¬a.Undrawable lib e cause := by
  constructor
  · intro ⟨o, hr, hstatus⟩
    subst hr
    cases h with
    | reported h =>
      cases h with
      | invalid => cases hstatus
      | unread => cases hstatus
      | drawn hvalid hparsed draws hdrawn =>
        refine ⟨hvalid, _, hparsed, fun cause hu => ?_⟩
        exact hu.not_drawn (isBound_shown hparsed) (one_le_size hvalid) draws hdrawn
  · intro ⟨hvalid, e, hparsed, hdrawable⟩
    cases h with
    | crashed _ hparsed' hu =>
      obtain rfl := Except.ok.inj (hparsed.symm.trans hparsed')
      exact absurd hu (hdrawable _)
    | reported h =>
      cases h with
      | invalid hinvalid => cases hvalid.symm.trans hinvalid
      | unread _ herror => cases hparsed.symm.trans herror
      | drawn => exact ⟨_, rfl, rfl⟩

theorem crash_iff (h : Ran a lib formula r) (crash : Crash) :
    r = .error crash ↔
      a.config.invalid? = none ∧ ∃ e cause, Equation.parse formula = .ok e ∧
        a.Undrawable lib e cause ∧ crash = .render cause := by
  constructor
  · intro hr
    subst hr
    cases h with
    | crashed hvalid hparsed hu => exact ⟨hvalid, _, _, hparsed, hu, rfl⟩
  · intro ⟨hvalid, e, cause, hparsed, hu, hcrash⟩
    subst hcrash
    have hb := @isBound_shown a _ _ hparsed
    have hsize := one_le_size hvalid
    cases h with
    | crashed _ hparsed' hu' =>
      obtain rfl := Except.ok.inj (hparsed.symm.trans hparsed')
      rw [hu.unique hb hsize hu']
    | reported h =>
      cases h with
      | invalid hinvalid => cases hvalid.symm.trans hinvalid
      | unread _ herror => cases hparsed.symm.trans herror
      | drawn _ hparsed' draws hdrawn =>
        obtain rfl := Except.ok.inj (hparsed.symm.trans hparsed')
        exact (hu.not_drawn hb hsize draws hdrawn).elim

end Ran
end Arguments

theorem run_of_read {words : List String} {a : Arguments} (h : Arguments.read words = .ok a)
    (lib : Library τ) (clock : Nat) : run lib words clock = a.run lib clock := by
  rw [run, h]

/-- A formula on the command line: the settings decide first, then the formula, and a picture comes
with status 0 and with no other. A picture that is laid out and written is as many pixels wide and
high as the cells and the border around them, magnified, and only settings past what arrays and
doubles hold are then in its way; nothing else ends in no status. -/
theorem outcome_of_formula (lib : Library τ) {words : List String} {a : Arguments}
    {formula : String} (hread : Arguments.read words = .ok a) (hformula : a.formula = some formula)
    (hnonempty : formula ≠ "") (hlist : a.listFunctions = false) (hrandom : a.random = false)
    (hlatex : a.latex = false) (clock : Nat) :
    (∀ o, run lib words clock = .ok o → a.Reports lib formula o) ∧
    ((∃ o, run lib words clock = .ok o ∧ o.status = 2) ↔
      ∃ cause, a.config.invalid? = some cause) ∧
    ((∃ o, run lib words clock = .ok o ∧ o.status = 1) ↔
      a.config.invalid? = none ∧ ∃ error, Equation.parse formula = .error error) ∧
    ((∃ o, run lib words clock = .ok o ∧ o.status = 0) ↔
      a.config.invalid? = none ∧ ∃ e, Equation.parse formula = .ok e ∧
        ∀ cause, ¬a.Undrawable lib e cause) ∧
    (∀ crash, run lib words clock = .error crash ↔
      a.config.invalid? = none ∧ ∃ e cause, Equation.parse formula = .ok e ∧
        a.Undrawable lib e cause ∧ crash = .render cause) ∧
    ∀ e cause, a.Undrawable lib e cause →
      (∀ text p, a.Draws lib a.config (a.shown e) text p → lib.plotting.saveRefusal? p = none ∧
        lib.plotting.layoutRefusal? p.heading p.scale p.first = none) → a.OutOfReach lib.arrays := by
  have hran : a.Ran lib formula (run lib words clock) := by
    rw [run_of_read hread]
    exact Arguments.ran_run hformula hnonempty hlist hrandom hlatex clock
  refine ⟨fun o ho => ?_, hran.status_two_iff, hran.status_one_iff, hran.status_zero_iff,
    hran.crash_iff, fun e cause h => h.outOfReach⟩
  rw [ho] at hran
  cases hran with
  | reported h => exact h

theorem parse_line : Equation.parse "y = x" = .ok (.ofSides (.var "y") (.var "x")) := by cbv

/-- All but the size and the scale as it is when nothing is said. -/
def lineOf (size scale : Int) : Arguments := { formula := some "y = x", size, scale }

/-- A small picture of the line is written. -/
theorem lineOf_saved {e : Equation} {text : String} {p : Picture}
    (h : (lineOf 2 1).Draws Library.standard (lineOf 2 1).config e text p) :
    Plotting.animatedRefusal? p = none := by
  obtain ⟨animation, -, hshows⟩ := h.animated
  have hwidth : (p.width : Int) = 44 := hshows.width.trans (by decide)
  have hheight : (p.height : Int) = 44 := hshows.height.trans (by decide)
  have hspeed : p.framesPerSecond = 1000.0 / Integral.ofInt 100 := hshows.speed
  have hdelay : ¬twoTo 16 ≤ Integral.value (1000.0 / (1000.0 / Integral.ofInt 100)) / 10 := by
    decide +kernel
  unfold Plotting.animatedRefusal?
  rw [hspeed, if_neg hdelay, if_neg]
  rw [twoTo_eq]
  omega

/-- Nothing stands against a small picture of the line. -/
theorem lineOf_drawable (cause : RenderError) :
    ¬(lineOf 2 1).Undrawable Library.standard (.ofSides (.var "y") (.var "x")) cause := by
  intro h
  have hgranted : Arrays.addressed.Grants (.aroundOrigin 2) :=
    (Arrays.addressed_grants_iff (by decide)).mpr (by decide)
  have hmagnified : ¬(Picture.unmagnified? .addressed (lineOf 2 1).config).isSome = true := by
    decide
  have hreach : (lineOf 2 1).timeLower.natAbs < leastUnreached ∧
      (lineOf 2 1).config.timeUpper ≤ leastUnreached ∧
      (lineOf 2 1).speed.natAbs < leastUnreached := by decide +kernel
  rcases h.outOfReach fun text p hp => ⟨lineOf_saved hp, rfl⟩ with
    hrefused | hsize | hlower | hupper | hunmade | hspeed
  · exact hrefused hgranted
  · exact absurd hsize (by decide +kernel)
  · exact absurd hlower (Nat.not_le.mpr hreach.1)
  · exact absurd hupper (Int.not_lt.mpr hreach.2.1)
  · exact hmagnified hunmade
  · exact absurd hspeed (Nat.not_le.mpr hreach.2.2)

theorem outcome_of_formula_line :
    let words := ["y = x", "--size", "2", "--scale", "1"]
    let a := lineOf 2 1
    Arguments.read words = .ok a ∧ a.formula = some "y = x" ∧ "y = x" ≠ "" ∧
      a.listFunctions = false ∧ a.random = false ∧ a.latex = false ∧
      ∃ o, run .standard words 0 = .ok o ∧ o.status = 0 ∧ a.Reports .standard "y = x" o := by
  intro words a
  have hread : Arguments.read words = .ok a := rfl
  have hvalid : a.config.invalid? = none := by decide +kernel
  obtain ⟨hreports, -, -, hzero, -⟩ :=
    outcome_of_formula .standard hread rfl (by decide) rfl rfl rfl 0
  obtain ⟨o, ho, hstatus⟩ := hzero.mpr ⟨hvalid, _, parse_line, lineOf_drawable⟩
  exact ⟨hread, rfl, by decide, rfl, rfl, rfl, o, ho, hstatus, hreports o ho⟩

theorem classifyAll_cons {text : String} {word : Word} (hne : text ≠ "--")
    (h : classify text = .ok word) (rest : List String) :
    classifyAll (text :: rest) = (classifyAll rest).map (word :: ·) := by
  rw [classifyAll, if_neg hne, h]
  cases classifyAll rest <;> rfl

/-- A word that starts with a digit is plain. -/
theorem classify_digit {c : Char} (hc : Text.isDigit c = true) (cs : List Char) :
    String.ofList (c :: cs) ≠ "--" ∧
      classify (String.ofList (c :: cs)) = .ok (.plain (String.ofList (c :: cs))) := by
  have hdash : c ≠ '-' := by
    intro h
    subst h
    exact absurd hc (by decide)
  constructor
  · intro h
    have hchars := congrArg String.toList h
    rw [String.toList_ofList] at hchars
    exact hdash (List.cons.inj hchars).1
  · rw [classify, String.toList_ofList]
    split
    next h => exact absurd (List.cons.inj h).1 hdash
    next h => exact absurd (List.cons.inj h).1 hdash
    next h => exact absurd (List.cons.inj h).1 hdash
    next => rfl

/-- Digits are read as the first time. -/
theorem read_timeLower {c : Char} {cs : List Char} (hall : ∀ d ∈ c :: cs, Text.isDigit d = true)
    (hlength : (c :: cs).length ≤ Numeral.longestInteger) :
    Arguments.read ["y = x", "--size", "2", "--scale", "1", "--tlb", String.ofList (c :: cs)] =
      .ok { lineOf 2 1 with timeLower := Text.natOfDigits (c :: cs) } := by
  have hn := Numeral.integer?_digits (List.cons_ne_nil c cs) hall hlength
  obtain ⟨hne, hplain⟩ := classify_digit (hall c List.mem_cons_self) cs
  generalize String.ofList (c :: cs) = text at hn hne hplain ⊢
  generalize Text.natOfDigits (c :: cs) = n at hn ⊢
  have hwords : classifyAll ["y = x", "--size", "2", "--scale", "1", "--tlb", text] =
      .ok [.plain "y = x", .option .size none, .plain "2", .option .scale none, .plain "1",
        .option .timeLower none, .plain text] := by
    rw [classifyAll_cons (by decide) rfl, classifyAll_cons (by decide) rfl,
      classifyAll_cons (by decide) rfl, classifyAll_cons (by decide) rfl,
      classifyAll_cons (by decide) rfl, classifyAll_cons (by decide) rfl,
      classifyAll_cons hne hplain]
    rfl
  have hset : (lineOf 2 1).set .timeLower .integer text =
      .ok { lineOf 2 1 with timeLower := n } := by
    rw [Arguments.set, hn]
    rfl
  have hconsume : Arguments.consume {} true [] [.plain "y = x", .option .size none, .plain "2",
      .option .scale none, .plain "1", .option .timeLower none, .plain text] =
        .ok ({ lineOf 2 1 with timeLower := n }, []) := by
    show ((lineOf 2 1).set .timeLower .integer text).bind (fun a => .ok (a, [])) = _
    rw [hset]
    rfl
  rw [Arguments.read, hwords]
  show (Arguments.consume {} true [] _).bind _ = _
  rw [hconsume]
  rfl

/-- There is no status where the first time is past the largest double. -/
theorem late_start_without_status :
    run .standard ["y = x", "--size", "2", "--scale", "1", "--tlb",
      String.ofList ('1' :: List.replicate 400 '0')] 0 =
        .error (.render (.sampling (.residual .overflow))) := by
  have hall : ∀ c ∈ '1' :: List.replicate 400 '0', Text.isDigit c = true := by
    intro c hc
    rcases List.mem_cons.mp hc with rfl | hzero
    · decide
    · exact Style.isDigit_zeros 400 c hzero
  have hlength : ('1' :: List.replicate 400 '0').length ≤ Numeral.longestInteger := by
    rw [List.length_cons, List.length_replicate]
    decide
  have hread := read_timeLower hall hlength
  have hnumber : Text.natOfDigits ('1' :: List.replicate 400 '0') = 10 ^ 200 * 10 ^ 200 := by
    have hpadded (k : Nat) : Text.natOfDigits ('1' :: List.replicate k '0') = 1 * 10 ^ k :=
      Text.natOfDigits_padded 0 k 1
    have hzeros : 400 = 200 + 200 := rfl
    rw [hpadded, hzeros, pow_add, one_mul]
  have hlower : leastUnreached ≤ ((10 ^ 200 * 10 ^ 200 : Nat) : Int).natAbs := by decide +kernel
  rw [hnumber] at hread
  generalize 10 ^ 200 * 10 ^ 200 = late at hread hlower
  let a : Arguments := { lineOf 2 1 with timeLower := late }
  have hvalid : a.config.invalid? = none := by
    show (lineOf 2 1).config.invalid? = none
    decide +kernel
  have hran : a.Ran Library.standard "y = x" (a.run .standard 0) :=
    Arguments.ran_run rfl (by decide) rfl rfl rfl 0
  have hgranted : Arrays.addressed.Grants (.aroundOrigin 2) :=
    (Arrays.addressed_grants_iff (by decide)).mpr (by decide)
  have hr := (Rect.reachable_aroundOrigin_iff (by decide)).mpr ⟨hgranted, by decide +kernel⟩
  have hundrawable : a.Undrawable Library.standard (.ofSides (.var "y") (.var "x"))
      (.sampling (.residual .overflow)) := .unsampled (.firstTime hr hlower)
  rw [run_of_read hread]
  exact (hran.crash_iff _).mpr ⟨hvalid, _, _, parse_line, hundrawable, rfl⟩

end Isotherm.CommandLine
