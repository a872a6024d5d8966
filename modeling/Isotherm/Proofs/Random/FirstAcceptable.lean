import Isotherm.Proofs.Formula.CanonicalText
import Isotherm.Proofs.Formula.NormalForm
import Isotherm.Proofs.Sampling.Times
import Isotherm.Random.Search

/-!
# The search keeps the first acceptable candidate

Every candidate is acceptable, or passed over, or it obstructs the search: it holds a foreign node,
or its animation cannot be sampled. The search ends at the first candidate that is not passed over,
and nothing that it has seen before matters. What a verbose search says on the way changes nothing.
-/

namespace Isotherm

namespace Equation

variable {lhs rhs : Expr}

theorem checkedText_of_hasForeign (h : (ofSides lhs rhs).hasForeign = true) :
    (ofSides lhs rhs).checkedText = .error (.foreign .serialize) := by
  show (ofSides lhs rhs).guarded .serialize (textOfSides lhs rhs) = _
  rw [guarded, h]
  rfl

end Equation

namespace Search

variable {arrays : Arrays}

/-! ## Candidates -/

/-- The depth of an equation that is sampled. -/
def Fits (e : Equation) : Prop :=
  ∃ depth, e.checkedDepth = .ok depth ∧ depthBounds.1 ≤ depth ∧ depth ≤ depthBounds.2

def Window.animate (arrays : Arrays) (w : Window) (e : Equation) : Except SampleError Animation :=
  e.animate arrays w.timeLower w.timeUpper w.rect w.cellSize

/-- Whether an animation passes the assessment. -/
def Accepts (a : Animation) : Prop :=
  (Tally.ofFrames a.frames.toList).accepted = true

/-- The simplified candidate has a fitting depth, and the assessment accepts its animation. -/
def Acceptable (arrays : Arrays) (w : Window) (c : Expr × Expr) : Prop :=
  ∃ e a, (Equation.ofSides c.1 c.2).checkedSimplify = .ok e ∧ Fits e ∧ w.animate arrays e = .ok a ∧
    Accepts a

/-- The simplified candidate has no fitting depth, or the assessment rejects its animation. -/
def PassedOver (arrays : Arrays) (w : Window) (c : Expr × Expr) : Prop :=
  ∃ e, (Equation.ofSides c.1 c.2).checkedSimplify = .ok e ∧
    (¬Fits e ∨ ∃ a, w.animate arrays e = .ok a ∧ ¬Accepts a)

/-- The candidate has no text, or its simplified form cannot be animated; either ends the search. -/
inductive Obstructs {ε : Type} (arrays : Arrays) (w : Window) (c : Expr × Expr) :
    SearchError ε → Prop where
  | tree {cause : TreeError} (h : (Equation.ofSides c.1 c.2).checkedText = .error cause) :
      Obstructs arrays w c (.tree cause)
  | sampling {e : Equation} {cause : SampleError}
      (simplified : (Equation.ofSides c.1 c.2).checkedSimplify = .ok e) (fits : Fits e)
      (animation : w.animate arrays e = .error cause) : Obstructs arrays w c (.sampling cause)

/-- The candidate is what was found: the simplified equation with its own animation and tally, and
the text from before it was simplified. -/
structure Keeps (arrays : Arrays) (w : Window) (c : Expr × Expr) (attempt : Nat) (found : Found) :
    Prop where
  text : (Equation.ofSides c.1 c.2).checkedText = .ok found.candidateText
  simplified :
    (Equation.ofSides c.1 c.2).checkedSimplify = .ok (Equation.ofSides found.lhs found.rhs)
  fits : Fits (Equation.ofSides found.lhs found.rhs)
  animation : w.animate arrays (Equation.ofSides found.lhs found.rhs) = .ok found.animation
  tally : found.tally = Tally.ofFrames found.animation.frames.toList
  accepted : found.tally.accepted = true
  attempts : found.attempts = attempt

section Candidates

variable {ε : Type} {w : Window} {c : Expr × Expr}

theorem Keeps.acceptable {attempt : Nat} {found : Found} (h : Keeps arrays w c attempt found) :
    Acceptable arrays w c := by
  refine ⟨_, found.animation, h.simplified, h.fits, h.animation, ?_⟩
  rw [Accepts, ← h.tally]
  exact h.accepted

theorem Acceptable.not_passedOver (h : Acceptable arrays w c) : ¬PassedOver arrays w c := by
  rintro ⟨e', hsimplified', hrejected⟩
  obtain ⟨e, a, hsimplified, hfits, ha, haccepts⟩ := h
  obtain rfl := Except.ok.inj (hsimplified.symm.trans hsimplified')
  obtain hdepth | ⟨a', ha', hrejects⟩ := hrejected
  · exact hdepth hfits
  · obtain rfl := Except.ok.inj (ha.symm.trans ha')
    exact hrejects haccepts

/-- Foreign nodes are noticed when the text of the candidate is made. -/
theorem checkedSimplify_ne_ok {cause : TreeError}
    (h : (Equation.ofSides c.1 c.2).checkedText = .error cause) (e : Equation) :
    (Equation.ofSides c.1 c.2).checkedSimplify ≠ .ok e := by
  intro hsimplified
  cases hforeign : (Equation.ofSides c.1 c.2).hasForeign with
  | false =>
    obtain ⟨hl, hr⟩ := Bool.or_eq_false_iff.mp hforeign
    rw [Equation.checkedText_ofSides hl hr] at h
    cases h
  | true =>
    rw [Equation.checkedSimplify, Equation.guarded, hforeign] at hsimplified
    cases hsimplified

theorem Obstructs.not_passedOver {error : SearchError ε} (h : Obstructs arrays w c error) :
    ¬PassedOver arrays w c := by
  rintro ⟨e', hsimplified', hrejected⟩
  cases h with
  | tree h => exact checkedSimplify_ne_ok h e' hsimplified'
  | sampling hsimplified hfits ha =>
    obtain rfl := Except.ok.inj (hsimplified.symm.trans hsimplified')
    obtain hdepth | ⟨a, ha', -⟩ := hrejected
    · exact hdepth hfits
    · cases ha.symm.trans ha'

theorem Obstructs.not_acceptable {error : SearchError ε} (h : Obstructs arrays w c error) :
    ¬Acceptable arrays w c := by
  rintro ⟨e', a, hsimplified', _, ha', _⟩
  cases h with
  | tree h => exact checkedSimplify_ne_ok h e' hsimplified'
  | sampling hsimplified _ ha =>
    obtain rfl := Except.ok.inj (hsimplified.symm.trans hsimplified')
    cases ha.symm.trans ha'

/-! ## Verdicts -/

/-- What a verdict means for the candidate. -/
inductive Judged (arrays : Arrays) (w : Window) (c : Expr × Expr) (attempt : Nat) :
    Verdict → Prop where
  | kept {found : Found} (h : Keeps arrays w c attempt found) :
    Judged arrays w c attempt (.kept found)
  | passed {why : SearchNote} (h : PassedOver arrays w c) : Judged arrays w c attempt (.passed why)
  | broken {cause : TreeError} (h : (Equation.ofSides c.1 c.2).checkedText = .error cause) :
      Judged arrays w c attempt (.broken cause)
  | unsampled {e : Equation} {cause : SampleError}
      (simplified : (Equation.ofSides c.1 c.2).checkedSimplify = .ok e) (fits : Fits e)
      (animation : w.animate arrays e = .error cause) : Judged arrays w c attempt (.unsampled cause)

variable {lhs rhs : Expr}

theorem prepare_of_hasForeign (h : (Equation.ofSides lhs rhs).hasForeign = true) :
    prepare lhs rhs = .error (.foreign .serialize) := by
  simp only [prepare, Equation.checkedText_of_hasForeign h, bind, Except.bind]

theorem prepare_of_plain (hl : lhs.hasForeign = false) (hr : rhs.hasForeign = false) :
    prepare lhs rhs =
      .ok (Equation.textOfSides lhs rhs, lhs.simplify false, rhs.simplify false) := by
  simp only [prepare, Equation.checkedText_ofSides hl hr, Expr.checkedSimplify_eq_ok hl,
    Expr.checkedSimplify_eq_ok hr, bind, Except.bind, pure, Except.pure]

theorem consider_of_hasForeign (h : (Equation.ofSides lhs rhs).hasForeign = true)
    (verbose : Bool) (w : Window) (attempt : Nat) :
    consider arrays verbose w attempt lhs rhs = ([], .broken (.foreign .serialize)) := by
  rw [consider, prepare_of_hasForeign h]

/-- The verdict on a candidate without foreign nodes is that on its simplified sides, whether or not
the search is verbose. -/
theorem verdict_consider (hl : lhs.hasForeign = false) (hr : rhs.hasForeign = false)
    (verbose : Bool) (w : Window) (attempt : Nat) :
    (consider arrays verbose w attempt lhs rhs).2 =
      judge arrays w attempt (Equation.textOfSides lhs rhs) (lhs.simplify false)
        (rhs.simplify false) := by
  have htext := Equation.checkedText_ofSides ((Expr.hasForeign_simplify false lhs).trans hl)
    ((Expr.hasForeign_simplify false rhs).trans hr)
  rw [consider, prepare_of_plain hl hr]
  cases verbose with
  | false => rfl
  | true => simp only [htext, if_true]

theorem judged_judge (hl : lhs.hasForeign = false) (hr : rhs.hasForeign = false) (w : Window)
    (attempt : Nat) :
    Judged arrays w (lhs, rhs) attempt (judge arrays w attempt (Equation.textOfSides lhs rhs)
      (lhs.simplify false) (rhs.simplify false)) := by
  have hsimplified : (Equation.ofSides lhs rhs).checkedSimplify =
      .ok (Equation.ofSides (lhs.simplify false) (rhs.simplify false)) :=
    Equation.checkedSimplify_eq_ok (by rw [Equation.hasForeign_ofSides, hl, hr]; rfl)
  have hdepth : (Equation.ofSides (lhs.simplify false) (rhs.simplify false)).checkedDepth =
      .ok (max (lhs.simplify false).depth (rhs.simplify false).depth + 1) :=
    Equation.checkedDepth_ofSides ((Expr.hasForeign_simplify false lhs).trans hl)
      ((Expr.hasForeign_simplify false rhs).trans hr)
  generalize lhs.simplify false = simpleLhs at hsimplified hdepth
  generalize rhs.simplify false = simpleRhs at hsimplified hdepth
  simp only [judge, hdepth]
  split
  next hshallow =>
    refine .passed ⟨_, hsimplified, .inl ?_⟩
    rintro ⟨depth, hd, hleast, _⟩
    obtain rfl := Except.ok.inj (hdepth.symm.trans hd)
    omega
  split
  next hdeep =>
    refine .passed ⟨_, hsimplified, .inl ?_⟩
    rintro ⟨depth, hd, _, hgreatest⟩
    obtain rfl := Except.ok.inj (hdepth.symm.trans hd)
    omega
  have hfits : Fits (Equation.ofSides simpleLhs simpleRhs) := ⟨_, hdepth, by omega, by omega⟩
  split
  next cause hanimate => exact .unsampled hsimplified hfits hanimate
  next a hanimate =>
    split
    next reason hreason =>
      refine .passed ⟨_, hsimplified, .inr ⟨a, hanimate, ?_⟩⟩
      simp [Accepts, Tally.accepted, hreason]
    next hnone =>
      exact .kept ⟨Equation.checkedText_ofSides hl hr, hsimplified, hfits, hanimate, rfl,
        by simp [Tally.accepted, hnone], rfl⟩

theorem judged_consider (arrays : Arrays) (verbose : Bool) (w : Window) (c : Expr × Expr)
    (attempt : Nat) :
    Judged arrays w c attempt (consider arrays verbose w attempt c.1 c.2).2 := by
  cases hforeign : (Equation.ofSides c.1 c.2).hasForeign with
  | true =>
    rw [consider_of_hasForeign hforeign]
    exact .broken (Equation.checkedText_of_hasForeign hforeign)
  | false =>
    obtain ⟨hl, hr⟩ := Bool.or_eq_false_iff.mp hforeign
    rw [verdict_consider hl hr]
    exact judged_judge hl hr w attempt

/-- Being verbose changes no verdict. -/
theorem verdict_verbose (verbose : Bool) (w : Window) (attempt : Nat) (lhs rhs : Expr) :
    (consider arrays verbose w attempt lhs rhs).2 = (consider arrays false w attempt lhs rhs).2 := by
  cases hforeign : (Equation.ofSides lhs rhs).hasForeign with
  | true => rw [consider_of_hasForeign hforeign, consider_of_hasForeign hforeign]
  | false =>
    obtain ⟨hl, hr⟩ := Bool.or_eq_false_iff.mp hforeign
    rw [verdict_consider hl hr, verdict_consider hl hr]

end Candidates

/-! ## Runs -/

/-- How a search among `limit` candidates ends, and how many it has drawn by then. -/
inductive Ends {ε : Type} (arrays : Arrays) (w : Window) (candidates : Nat → Expr × Expr)
    (limit : Int) : Nat → Except (SearchError ε) Found → Prop where
  | found {k : Nat} {found : Found} (hk : k < limit.toNat)
      (before : ∀ j < k, PassedOver arrays w (candidates j))
      (h : Keeps arrays w (candidates k) (k + 1) found) :
      Ends arrays w candidates limit (k + 1) (.ok found)
  | obstructed {k : Nat} {error : SearchError ε} (hk : k < limit.toNat)
      (before : ∀ j < k, PassedOver arrays w (candidates j))
      (h : Obstructs arrays w (candidates k) error) :
      Ends arrays w candidates limit (k + 1) (.error error)
  | exhausted (before : ∀ j < limit.toNat, PassedOver arrays w (candidates j)) :
      Ends arrays w candidates limit limit.toNat (.error (.exhausted limit))

section Runs

variable {σ ε : Type} {next : σ → Except ε (Expr × Expr) × σ}

theorem tryNext_succ (verbose : Bool) (w : Window) (limit : Int) (left made : Nat)
    (log : Array SearchNote) {s after : σ} {c : Expr × Expr} (h : next s = (.ok c, after)) :
    tryNext arrays verbose w next limit (left + 1) made log s =
      let notes := log ++ (consider arrays verbose w (made + 1) c.1 c.2).1.toArray
      match (consider arrays verbose w (made + 1) c.1 c.2).2 with
      | .kept found => ⟨notes, .ok found, after⟩
      | .passed _ => tryNext arrays verbose w next limit left (made + 1) notes after
      | .broken cause => ⟨notes, .error (.tree cause), after⟩
      | .unsampled cause => ⟨notes, .error (.sampling cause), after⟩ := by
  rewrite [tryNext, h]
  rfl

/-- Candidate after candidate is passed over until the search ends. -/
theorem ends_tryNext (verbose : Bool) (w : Window) {candidates : Nat → Expr × Expr}
    {states : Nat → σ} (hnext : ∀ n, next (states n) = (.ok (candidates n), states (n + 1)))
    (limit : Int) (left made : Nat) (log : Array SearchNote) (hleft : made + left = limit.toNat)
    (before : ∀ j < made, PassedOver arrays w (candidates j)) :
    ∃ drawn, Ends arrays w candidates limit drawn
        (tryNext arrays verbose w next limit left made log (states made)).result ∧
      (tryNext arrays verbose w next limit left made log (states made)).state = states drawn := by
  induction left generalizing made log with
  | zero =>
    obtain rfl : made = limit.toNat := by omega
    exact ⟨_, .exhausted before, rfl⟩
  | succ left ih =>
    have hjudged := judged_consider arrays verbose w (candidates made) (made + 1)
    rw [tryNext_succ verbose w limit left made log (hnext made)]
    generalize (consider arrays verbose w (made + 1) (candidates made).1 (candidates made).2).2 =
      verdict at hjudged
    cases hjudged with
    | kept h => exact ⟨made + 1, .found (by omega) before h, rfl⟩
    | passed h =>
      refine ih (made + 1) _ (by omega) fun j hj => ?_
      obtain hj | rfl := Nat.lt_succ_iff_lt_or_eq.mp hj
      · exact before j hj
      · exact h
    | broken h => exact ⟨made + 1, .obstructed (by omega) before (.tree h), rfl⟩
    | unsampled hsimplified hfits ha =>
      exact ⟨made + 1, .obstructed (by omega) before (.sampling hsimplified hfits ha), rfl⟩

theorem tryNext_verbose (verbose : Bool) (w : Window) (limit : Int) (left made : Nat)
    (log log' : Array SearchNote) (s : σ) :
    (tryNext arrays verbose w next limit left made log s).result =
        (tryNext arrays false w next limit left made log' s).result ∧
      (tryNext arrays verbose w next limit left made log s).state =
        (tryNext arrays false w next limit left made log' s).state := by
  induction left generalizing made log log' s with
  | zero => exact ⟨rfl, rfl⟩
  | succ left ih =>
    cases hs : next s with
    | mk made? after =>
      cases made? with
      | error cause =>
        simp only [tryNext, hs, and_self]
      | ok c =>
        rw [tryNext_succ _ _ _ _ _ _ hs, tryNext_succ _ _ _ _ _ _ hs, verdict_verbose verbose]
        cases (consider arrays false w (made + 1) c.1 c.2).2 with
        | passed why => exact ih ..
        | kept found => exact ⟨rfl, rfl⟩
        | broken cause => exact ⟨rfl, rfl⟩
        | unsampled cause => exact ⟨rfl, rfl⟩

/-- Neither the result of a search nor what it draws depends on what is said on the way. -/
theorem run_verbose (arrays : Arrays) (verbose : Bool) (w : Window)
    (next : σ → Except ε (Expr × Expr) × σ) (limit : Int) (s : σ) :
    (run arrays verbose w next limit s).result = (run arrays false w next limit s).result ∧
      (run arrays verbose w next limit s).state = (run arrays false w next limit s).state :=
  tryNext_verbose verbose w limit limit.toNat 0 #[] #[] s

end Runs

/-- Two candidates that are not passed over, with only candidates before them that are, are one. -/
theorem eq_of_passedOver_before {w : Window} {candidates : Nat → Expr × Expr} {k k' : Nat}
    (h : ¬PassedOver arrays w (candidates k)) (before : ∀ j < k, PassedOver arrays w (candidates j))
    (h' : ¬PassedOver arrays w (candidates k'))
    (before' : ∀ j < k', PassedOver arrays w (candidates j)) : k = k' := by
  obtain hlt | heq | hgt := Nat.lt_trichotomy k k'
  · exact absurd (before' k hlt) h
  · exact heq
  · exact absurd (before k' hgt) h'

/-- A source that hands out a sequence of candidates; its state counts what was drawn. -/
def counting (candidates : Nat → Expr × Expr) (drawn : Nat) : Except Empty (Expr × Expr) × Nat :=
  (.ok (candidates drawn), drawn + 1)

/-- The doubles reach over all cells and times of the window. -/
structure Window.Representable (arrays : Arrays) (w : Window) : Prop where
  rect : w.rect.Reachable arrays
  times : 0 < w.rect.area → ∀ t, w.timeLower ≤ t → t < max w.timeUpper (w.timeLower + 1) →
    (Scalar.integer t).Representable

/-- Nothing obstructs the search in reach of the doubles but a foreign node. -/
theorem Window.Representable.not_obstructs {ε : Type} {w : Window} (hw : w.Representable arrays)
    {c : Expr × Expr} (hc : (Equation.ofSides c.1 c.2).hasForeign = false)
    (error : SearchError ε) : ¬Obstructs arrays w c error := by
  intro h
  obtain ⟨hl, hr⟩ := Bool.or_eq_false_iff.mp hc
  cases h with
  | tree h =>
    rw [Equation.checkedText_ofSides hl hr] at h
    cases h
  | sampling hsimplified _ hanimate =>
    rw [Equation.checkedSimplify_eq_ok hc] at hsimplified
    obtain rfl := Except.ok.inj hsimplified
    have hbound : (Equation.ofSides c.1 c.2).simplify.isBound = true := rfl
    obtain ⟨a, ha⟩ := Equation.exists_animate hbound hw.rect hw.times w.cellSize
    cases ha.symm.trans hanimate

/-! ## The end of a search -/

section Ends

variable {ε : Type} {w : Window} {candidates : Nat → Expr × Expr} {limit : Int} {drawn : Nat}
  {result : Except (SearchError ε) Found}

theorem Ends.of_ok {found : Found} (h : Ends arrays w candidates limit drawn result)
    (hresult : result = .ok found) :
    ∃ k, drawn = k + 1 ∧ k < limit.toNat ∧ Keeps arrays w (candidates k) (k + 1) found ∧
      ∀ j < k, PassedOver arrays w (candidates j) := by
  cases h with
  | found hk before h =>
    obtain rfl := Except.ok.inj hresult
    exact ⟨_, rfl, hk, h, before⟩
  | obstructed | exhausted => cases hresult

theorem Ends.of_error {error : SearchError ε} (h : Ends arrays w candidates limit drawn result)
    (hresult : result = .error error) :
    (error = .exhausted limit ∧ drawn = limit.toNat ∧
      ∀ j < limit.toNat, PassedOver arrays w (candidates j)) ∨
    ∃ k, drawn = k + 1 ∧ k < limit.toNat ∧ Obstructs arrays w (candidates k) error ∧
      ∀ j < k, PassedOver arrays w (candidates j) := by
  cases h with
  | found => cases hresult
  | obstructed hk before h =>
    obtain rfl := Except.error.inj hresult
    exact .inr ⟨_, rfl, hk, h, before⟩
  | exhausted before => exact .inl ⟨(Except.error.inj hresult).symm, rfl, before⟩

/-- The first acceptable candidate is found. -/
theorem Ends.exists_found (h : Ends arrays w candidates limit drawn result) {k : Nat}
    (hk : k < limit.toNat) (hacceptable : Acceptable arrays w (candidates k))
    (before : ∀ j < k, PassedOver arrays w (candidates j)) :
    ∃ found, result = .ok found ∧ found.attempts = k + 1 := by
  have hnot := hacceptable.not_passedOver
  cases h with
  | @found k' found _ before' h =>
    obtain rfl := eq_of_passedOver_before hnot before h.acceptable.not_passedOver before'
    exact ⟨found, rfl, h.attempts⟩
  | obstructed _ before' h =>
    obtain rfl := eq_of_passedOver_before hnot before h.not_passedOver before'
    exact absurd hacceptable h.not_acceptable
  | exhausted before' => exact absurd (before' k hk) hnot

theorem Ends.eq_exhausted (h : Ends arrays w candidates limit drawn result)
    (before : ∀ j < limit.toNat, PassedOver arrays w (candidates j)) :
    result = .error (.exhausted limit) := by
  cases h with
  | found hk _ h => exact absurd (before _ hk) h.acceptable.not_passedOver
  | obstructed hk _ h => exact absurd (before _ hk) h.not_passedOver
  | exhausted => rfl

/-- Candidates that are exhausted were all passed over. -/
theorem Ends.passedOver (h : Ends arrays w candidates limit drawn result)
    (hresult : result = .error (.exhausted limit)) :
    ∀ j < limit.toNat, PassedOver arrays w (candidates j) := by
  obtain ⟨-, -, before⟩ | ⟨k, -, -, hobstructs, -⟩ := h.of_error hresult
  · exact before
  · cases hobstructs

end Ends

/-- The search ends in one of its three ways. -/
theorem ends_run (candidates : Nat → Expr × Expr) (w : Window) (limit : Int) (verbose : Bool) :
    Ends arrays w candidates limit (run arrays verbose w (counting candidates) limit 0).state
      (run arrays verbose w (counting candidates) limit 0).result := by
  have hnext (n : Nat) : counting candidates (id n) = (.ok (candidates n), id (n + 1)) := rfl
  obtain ⟨drawn, hends, hstate⟩ :=
    ends_tryNext verbose w hnext limit limit.toNat 0 #[] (by omega) (by simp)
  rw [id_eq] at hstate
  subst hstate
  exact hends

/-- The search returns the first acceptable candidate if all before it are passed over and it comes
soon enough: simplified, with the text from before, its animation and tally, and as many attempts as
candidates were drawn. If all candidates are passed over, the search ends with an error when none is
left. The only other end is at the first candidate that is neither acceptable nor passed over; in
reach of the doubles that is one with a foreign node. What a verbose search says changes neither its
result nor what it draws. -/
theorem run_finds_first_acceptable (candidates : Nat → Expr × Expr) (arrays : Arrays) (w : Window)
    (limit : Int) (verbose : Bool) :
    let o := run arrays verbose w (counting candidates) limit 0
    (∀ k : Nat, (∃ found, o.result = .ok found ∧ found.attempts = k + 1) ↔
      (k + 1 : Int) ≤ limit ∧ Acceptable arrays w (candidates k) ∧
        ∀ j < k, PassedOver arrays w (candidates j)) ∧
    (∀ found, o.result = .ok found →
      ∃ k, o.state = k + 1 ∧ Keeps arrays w (candidates k) (k + 1) found) ∧
    (o.result = .error (.exhausted limit) ↔ ∀ j < limit.toNat, PassedOver arrays w (candidates j)) ∧
    (∀ error, o.result = .error error → error = .exhausted limit ∧ o.state = limit.toNat ∨
      ∃ k : Nat, o.state = k + 1 ∧ (k + 1 : Int) ≤ limit ∧ Obstructs arrays w (candidates k) error ∧
        ∀ j < k, PassedOver arrays w (candidates j)) ∧
    (w.Representable arrays →
      (∀ k, (Equation.ofSides (candidates k).1 (candidates k).2).hasForeign = false) →
      ∀ error, o.result = .error error → error = .exhausted limit) ∧
    ∀ verbose', (run arrays verbose' w (counting candidates) limit 0).result = o.result ∧
      (run arrays verbose' w (counting candidates) limit 0).state = o.state := by
  intro o
  have hends : Ends arrays w candidates limit o.state o.result := ends_run candidates w limit verbose
  refine ⟨fun k => ⟨?_, ?_⟩, ?_, ⟨?_, ?_⟩, ?_, ?_, ?_⟩
  · rintro ⟨found, hresult, hattempts⟩
    obtain ⟨k', -, hk, hkeeps, before⟩ := hends.of_ok hresult
    obtain rfl : k' = k := by
      have := hkeeps.attempts
      omega
    exact ⟨by omega, hkeeps.acceptable, before⟩
  · rintro ⟨hk, hacceptable, before⟩
    exact hends.exists_found (by omega) hacceptable before
  · intro found hresult
    obtain ⟨k, hdrawn, -, hkeeps, -⟩ := hends.of_ok hresult
    exact ⟨k, hdrawn, hkeeps⟩
  · intro hresult
    exact hends.passedOver hresult
  · intro before
    exact hends.eq_exhausted before
  · intro error hresult
    obtain ⟨hexhausted, hdrawn, -⟩ | ⟨k, hdrawn, hk, hobstructs, before⟩ :=
      hends.of_error hresult
    · exact .inl ⟨hexhausted, hdrawn⟩
    · exact .inr ⟨k, hdrawn, by omega, hobstructs, before⟩
  · intro hw hplain error hresult
    obtain ⟨hexhausted, -⟩ | ⟨k, -, -, hobstructs, -⟩ := hends.of_error hresult
    · exact hexhausted
    · exact absurd hobstructs (hw.not_obstructs (hplain k) error)
  · intro verbose'
    have hsame (verbose : Bool) := run_verbose arrays verbose w (counting candidates) limit 0
    exact ⟨(hsame verbose').1.trans (hsame verbose).1.symm,
      (hsame verbose').2.trans (hsame verbose).2.symm⟩

/-- The second candidate is found: the first is too shallow. -/
theorem run_finds_first_acceptable_second :
    let sum : Expr := .brackets (.binary (.var "x") .add (.number 2))
    let product : Expr := .binary (.var "x") .multiply sum
    let candidates : Nat → Expr × Expr
      | 0 => (.var "y", .var "x")
      | _ + 1 => (.var "y", product)
    let w : Window := ⟨⟨0, 0, 2, 1⟩, 0, 1, 1⟩
    let arrays := Arrays.addressed
    (∃ found, (run arrays true w (counting candidates) 5 0).result = .ok found ∧
      found.attempts = 1 + 1) ∧
      Acceptable arrays w (candidates 1) ∧ ∀ j < 1, PassedOver arrays w (candidates j) := by
  intro sum product candidates w arrays
  have hattempts : (match (run arrays true w (counting candidates) 5 0).result with
      | .ok found => found.attempts
      | .error _ => 0) = 1 + 1 := by decide +kernel
  have hfound : ∃ found, (run arrays true w (counting candidates) 5 0).result = .ok found ∧
      found.attempts = 1 + 1 := by
    split at hattempts
    next found hresult => exact ⟨found, hresult, hattempts⟩
    next => cases hattempts
  obtain ⟨-, hacceptable, before⟩ :=
    ((run_finds_first_acceptable candidates arrays w 5 true).1 1).mp hfound
  exact ⟨hfound, hacceptable, before⟩

/-- A time past the largest double ends the search with an error of its own: nothing is found, and
the candidates are not exhausted. -/
theorem run_past_doubles :
    let sum : Expr := .brackets (.binary (.var "x") .add (.number 2))
    let product : Expr := .binary (.var "x") .multiply sum
    let w : Window := ⟨⟨0, 0, 1, 1⟩, 10 ^ 400, 10 ^ 400 + 1, 1⟩
    let arrays := Arrays.addressed
    let o := run arrays false w (counting fun _ => (.var "y", product)) 1 0
    (∀ found, o.result ≠ .ok found) ∧ o.result ≠ .error (.exhausted 1) ∧
      o.result = .error (.sampling (.residual .overflow)) := by
  intro sum product w arrays o
  have hmade : arrays.Grants w.rect := by constructor <;> decide +kernel
  have hr : w.rect.Reachable arrays :=
    Rect.reachable_of_lt hmade (by decide) (by decide) (by decide) (by decide)
  have hanimate : w.animate arrays (Equation.ofSides (.var "y") product) =
      .error (.residual .overflow) :=
    Equation.animate_of_sample_error
      (Equation.sample_of_overflow rfl hr (by decide) Equation.toFloat?_past_doubles) _
  have hdepth : (Equation.ofSides (.var "y") product).checkedDepth = .ok 5 := rfl
  have hsimple : (Expr.var "y").simplify false = .var "y" ∧ product.simplify false = product :=
    ⟨rfl, rfl⟩
  have hverdict : (consider arrays false w 1 (.var "y") product).2 =
      .unsampled (.residual .overflow) := by
    rw [Window.animate] at hanimate
    rw [verdict_consider rfl rfl, hsimple.1, hsimple.2]
    simp [judge, hdepth, hanimate, depthBounds]
  have hresult : o.result = .error (.sampling (.residual .overflow)) := by
    have hnext : counting (fun _ => (.var "y", product)) 0 = (.ok (.var "y", product), 1) := rfl
    show (tryNext arrays false w _ 1 (0 + 1) 0 #[] 0).result = _
    rw [tryNext_succ false w 1 0 0 #[] hnext, hverdict]
  rw [hresult]
  exact ⟨nofun, nofun, rfl⟩

end Search
end Isotherm
