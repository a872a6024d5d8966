import Isotherm.Proofs.Evaluation.ReadTracking
import Isotherm.Proofs.Symbolic.Failures
import Isotherm.Proofs.Symbolic.Sound

/-!
# The residual as a polynomial

Formulas that are made of integers and variables by sums, differences, products, natural powers,
negations, brackets and calls of what is no function stand for polynomials. Two readings of such a
tree agree on which polynomial that is: the residual as a term denotes it, and the residual that is
computed in integers without rounding is its value. An algebra may put terms in a normal form of its
own on the way, so the two do not agree node by node, but as polynomials. All that is asked of the
algebra is that its sums, differences, products, natural powers and negations are sound, and the
algebra of terms in normal form is one of which that holds.
-/

namespace Isotherm

open MvPolynomial

/-! ## Integers without rounding -/

/-- Arithmetic that is exact on what polynomials are made of: the doubles that are integers, sums,
differences, products, natural powers and negations. -/
structure Arithmetic.Exact (A : Arithmetic ℤ) : Prop where
  constant {v : Float} (h : Integral.IsWhole v) : (A.constant v : ℚ) = Amount.rational v
  plus (a b : ℤ) : A.plus a b = a + b
  minus (a b : ℤ) : A.minus a b = a - b
  times (a b : ℤ) : A.times a b = a * b
  power (a : ℤ) (n : ℕ) : A.power a n = a ^ n
  negated (a : ℤ) : A.negated a = -a

/-- Integers without rounding. Functions leave their first argument as it is. -/
def Arithmetic.integers : Arithmetic ℤ where
  constant := Integral.value
  negated a := -a
  plus a b := a + b
  minus a b := a - b
  times a b := a * b
  dividedBy a b := a / b
  power a b := a ^ b.toNat
  remainder a b := a.tmod b
  call _ a := a
  call2 _ a _ := a

theorem Arithmetic.integers_exact : Arithmetic.integers.Exact where
  constant h := h.rational_eq.symm
  plus _ _ := rfl
  minus _ _ := rfl
  times _ _ := rfl
  power _ _ := rfl
  negated _ := rfl

theorem Arithmetic.Exact.constant_eq {A : Arithmetic ℤ} (hA : A.Exact) {v : Float}
    (h : Integral.IsWhole v) : A.constant v = Integral.value v := by
  have hconstant := hA.constant h
  rw [h.rational_eq] at hconstant
  exact_mod_cast hconstant

/-! ## Symbols of variables -/

namespace Coordinate

/-- The name of the symbol of a variable. -/
def symbol : Coordinate → String
  | x => "x"
  | y => "y"
  | t => "t"

theorem symbolName_eq {name : String} {c : Coordinate} (h : name ∈ c.spellings) :
    Engine.symbolName name = c.symbol := by
  have hlower : ∀ other ∈ c.spellings, other.toList.map Char.toLower = c.symbol.toList := by
    cases c <;> decide
  rw [Engine.symbolName, ← String.toList_inj, String.toLower, String.toList_map]
  exact hlower name h

theorem caseKey_symbol (c : Coordinate) : caseKey c.symbol = [c.letter] := by
  rw [caseKey_eq_iff]
  cases c <;> decide

end Coordinate

/-- The integers that symbols stand for. -/
def Bindings.point (b : Bindings ℤ) (name : String) : ℤ :=
  if name = "x" then b.x else if name = "y" then b.y else if name = "t" then b.t else 0

theorem Bindings.point_symbol (b : Bindings ℤ) (c : Coordinate) :
    b.point c.symbol = c.value b := by
  cases c <;> rfl

theorem valuesOf_symbol (b : Bindings ℤ) (c : Coordinate) :
    valuesOf (.exact b.x) (.exact b.y) (.exact b.t) c.symbol =
      .amount (.exact (b.point c.symbol : ℤ)) := by
  cases c <;> rfl

namespace Expr

/-! ## Trees that are polynomials -/

/-- A tree of integers and variables, made by what polynomials are made by. An exponent is written
as a natural number, and what is called is no function of as many arguments. -/
inductive IsPolynomial : Expr → Prop
  | number {v : Float} (h : Integral.IsWhole v) : IsPolynomial (number v)
  | var {name : String} {c : Coordinate} (h : name ∈ c.spellings) : IsPolynomial (var name)
  | add {l r : Expr} (hl : IsPolynomial l) (hr : IsPolynomial r) : IsPolynomial (binary l .add r)
  | subtract {l r : Expr} (hl : IsPolynomial l) (hr : IsPolynomial r) :
      IsPolynomial (binary l .subtract r)
  | multiply {l r : Expr} (hl : IsPolynomial l) (hr : IsPolynomial r) :
      IsPolynomial (binary l .multiply r)
  | power {l : Expr} {v : Float} (hl : IsPolynomial l) (hv : Integral.IsWhole v)
      (hpositive : 0 ≤ Integral.value v) : IsPolynomial (binary l .power (number v))
  | negate {e : Expr} (h : IsPolynomial e) : IsPolynomial (negate e)
  | brackets {e : Expr} (h : IsPolynomial e) : IsPolynomial (brackets e)
  | call {name : String} {e : Expr} (hname : Function1.ofName? name = none) (h : IsPolynomial e) :
      IsPolynomial (call name e)
  | call2 {name : String} {l r : Expr} (hname : Function2.ofName? name = none)
      (hl : IsPolynomial l) (hr : IsPolynomial r) (infixed : Bool) :
      IsPolynomial (call2 name l r infixed)

/-- The polynomial that a tree stands for, with the operands in the order of evaluation. -/
noncomputable def polynomial : Expr → MvPolynomial String ℤ
  | number v => (Integral.value v : ℤ)
  | var name => X (Engine.symbolName name)
  | binary l .add r => r.polynomial + l.polynomial
  | binary l .subtract r => r.polynomial - l.polynomial
  | binary l .multiply r => r.polynomial * l.polynomial
  | binary l .power (number v) => l.polynomial ^ (Integral.value v).toNat
  | negate e => -e.polynomial
  | brackets e | call _ e | call2 _ e _ _ => e.polynomial
  | _ => 0

/-- All nodes of such a tree can be computed, unless calls of what is no function are faults. -/
theorem IsPolynomial.computed {e : Expr} (h : e.IsPolynomial) :
    ∀ node ∈ e.subtrees, node.stop? false = none := by
  induction h with
  | number | var => simp [subtrees, stop?]
  | negate _ ih | brackets _ ih | call _ _ ih =>
    simp only [subtrees, List.forall_mem_cons]
    exact ⟨rfl, ih⟩
  | power _ _ _ ih =>
    simp only [subtrees, List.forall_mem_cons, List.forall_mem_append]
    exact ⟨rfl, ih, rfl, List.forall_mem_nil _⟩
  | add _ _ ihl ihr | subtract _ _ ihl ihr | multiply _ _ ihl ihr | call2 _ _ _ _ ihl ihr =>
    simp only [subtrees, List.forall_mem_cons, List.forall_mem_append]
    exact ⟨rfl, ihl, ihr⟩

end Expr

/-! ## The term of a tree -/

namespace Symbolic

variable {α β : Type}

/-- Whatever was asked for before, the computation gives a result that satisfies `P`. -/
def Yields (m : Symbolic α) (P : α → Prop) : Prop :=
  ∀ engine, ∃ a, (m.run engine).1 = .ok a ∧ P a

variable {P : α → Prop} {Q : β → Prop}

theorem yields_pure {a : α} (h : P a) : Yields (pure a) P :=
  fun _ => ⟨a, rfl, h⟩

theorem Yields.bind {m : Symbolic α} {k : α → Symbolic β} (h : Yields m P)
    (hk : ∀ a, P a → Yields (k a) Q) : Yields (m >>= k) Q := by
  intro engine
  obtain ⟨a, ha, hP⟩ := h engine
  obtain ⟨b, hb, hQ⟩ := hk a hP (m.run engine).2
  refine ⟨b, ?_, hQ⟩
  rw [run_bind]
  generalize m.run engine = outcome at ha hb
  obtain ⟨result, after⟩ := outcome
  subst ha
  exact hb

end Symbolic

namespace Expr

open Symbolic

/-- A result of a sound operation, of which the symbols are among those of its operands. -/
theorem yields_ofResult {τ : Type} {A : Algebra τ} {Denotes : τ → MvPolynomial String ℤ → Prop}
    {result : Except Refusal τ} {P : MvPolynomial String ℤ} {symbols : List String}
    {names : Set String}
    (h : ∃ c, result = .ok c ∧ Denotes c P ∧ A.symbols c ⊆ symbols)
    (hsymbols : ∀ s ∈ symbols, s ∈ names) :
    Yields (ofResult result) fun c => Denotes c P ∧ ∀ s ∈ A.symbols c, s ∈ names := by
  obtain ⟨c, rfl, hdenotes, hsubset⟩ := h
  exact yields_pure ⟨hdenotes, fun s hs => hsymbols s (hsubset hs)⟩

variable {τ : Type} {A : Algebra τ} {Denotes : τ → MvPolynomial String ℤ → Prop}

/-- In a sound algebra the term of a polynomial tree stands for its polynomial. -/
theorem IsPolynomial.yields_toTerm {e : Expr} (h : e.IsPolynomial) (hA : A.Sound Denotes)
    {names : Set String} (hnames : ∀ node ∈ e.subtrees, ∀ c : Coordinate, ∀ name ∈ c.spellings,
      node = .var name → c.symbol ∈ names) :
    Yields (e.toTerm A) fun a => Denotes a e.polynomial ∧ ∀ s ∈ A.symbols a, s ∈ names := by
  induction h with
  | number hv =>
    obtain ⟨hdenotes, hsymbols⟩ := hA.integer (Integral.value _)
    apply yields_pure
    rw [A.literal_of_isWhole hv, hsymbols]
    exact ⟨hdenotes, List.forall_mem_nil _⟩
  | @var name c hname =>
    have hsymbol := hnames _ (List.mem_singleton.mpr rfl) c name hname rfl
    rw [← Coordinate.symbolName_eq hname] at hsymbol
    obtain ⟨hdenotes, hsymbols⟩ := hA.symbol (Engine.symbolName name)
    refine fun engine => ⟨_, rfl, hdenotes, ?_⟩
    rw [hsymbols]
    exact List.forall_mem_singleton.mpr hsymbol
  | add _ _ ihl ihr =>
    simp only [subtrees, List.forall_mem_cons, List.forall_mem_append] at hnames
    refine (ihl hnames.2.1).bind fun left hleft => (ihr hnames.2.2).bind fun right hright => ?_
    exact yields_ofResult (hA.plus hright.1 hleft.1)
      (List.forall_mem_append.mpr ⟨hright.2, hleft.2⟩)
  | subtract _ _ ihl ihr =>
    simp only [subtrees, List.forall_mem_cons, List.forall_mem_append] at hnames
    refine (ihl hnames.2.1).bind fun left hleft => (ihr hnames.2.2).bind fun right hright => ?_
    exact yields_ofResult (hA.minus hright.1 hleft.1)
      (List.forall_mem_append.mpr ⟨hright.2, hleft.2⟩)
  | multiply _ _ ihl ihr =>
    simp only [subtrees, List.forall_mem_cons, List.forall_mem_append] at hnames
    refine (ihl hnames.2.1).bind fun left hleft => (ihr hnames.2.2).bind fun right hright => ?_
    exact yields_ofResult (hA.times hright.1 hleft.1)
      (List.forall_mem_append.mpr ⟨hright.2, hleft.2⟩)
  | @power l v _ hv hpositive ihl =>
    simp only [subtrees, List.forall_mem_cons, List.forall_mem_append] at hnames
    -- The exponent stays an integer, so the power is one to a natural number whatever the base is.
    have hexponent : A.literal v = A.integer (Integral.value v).toNat := by
      rw [A.literal_of_isWhole hv, Int.toNat_of_nonneg hpositive]
    refine (ihl hnames.2.1).bind fun left hleft => ?_
    show Yields (ofResult (A.power left (A.literal v))) _
    rw [hexponent]
    exact yields_ofResult (hA.power hleft.1 _) hleft.2
  | negate _ ih =>
    simp only [subtrees, List.forall_mem_cons] at hnames
    refine (ih hnames.2).bind fun operand hoperand => ?_
    exact yields_ofResult (hA.negated hoperand.1) hoperand.2
  | brackets _ ih =>
    simp only [subtrees, List.forall_mem_cons] at hnames
    exact ih hnames.2
  | call hname _ ih =>
    simp only [subtrees, List.forall_mem_cons] at hnames
    refine (ih hnames.2).bind fun argument hargument => ?_
    rw [hname]
    exact yields_pure hargument
  | call2 hname _ _ _ ihl ihr =>
    simp only [subtrees, List.forall_mem_cons, List.forall_mem_append] at hnames
    refine (ihl hnames.2.1).bind fun first hfirst => (ihr hnames.2.2).bind fun second _ => ?_
    rw [hname]
    exact yields_pure hfirst

end Expr

/-! ## The value of a tree in integers -/

namespace Evaluation

variable {α β : Type}

/-- Whatever was read before, the evaluation ends in the value. -/
def Gives (m : Evaluation α) (a : α) : Prop :=
  ∀ s, (m.outcome s).1 = .ok a

theorem gives_pure (a : α) : Gives (pure a) a :=
  fun _ => rfl

theorem Gives.bind {m : Evaluation α} {k : α → Evaluation β} {a : α} {b : β} (h : Gives m a)
    (hk : Gives (k a) b) : Gives (m >>= k) b := by
  intro s
  have hs := h s
  rw [outcome_bind]
  generalize m.outcome s = outcome at hs
  obtain ⟨result, r⟩ := outcome
  subst hs
  exact hk r

end Evaluation

namespace Expr

open Evaluation

theorem IsPolynomial.gives_evaluate {e : Expr} (h : e.IsPolynomial) {A : Arithmetic ℤ}
    (hA : A.Exact) (b : Bindings ℤ) :
    Gives (e.evaluate A false b) (eval b.point e.polynomial) := by
  -- In each case the value of the polynomial is put as what the arithmetic computes at the node.
  induction h with
  | number hv =>
    rw [polynomial, map_intCast, Int.cast_id, ← hA.constant_eq hv]
    exact gives_pure _
  | @var name c hname =>
    rw [polynomial, eval_X, Coordinate.symbolName_eq hname, Bindings.point_symbol]
    intro s
    rw [evaluate, readVariable, (Coordinate.ofName?_eq_some_iff name c).mpr hname]
    rfl
  | add _ _ ihl ihr =>
    rw [polynomial, eval_add, ← hA.plus]
    exact ihl.bind (ihr.bind (gives_pure _))
  | subtract _ _ ihl ihr =>
    rw [polynomial, eval_sub, ← hA.minus]
    exact ihl.bind (ihr.bind (gives_pure _))
  | multiply _ _ ihl ihr =>
    rw [polynomial, eval_mul, ← hA.times]
    exact ihl.bind (ihr.bind (gives_pure _))
  | @power l v _ hv hpositive ihl =>
    rw [polynomial, eval_pow, ← hA.power, Int.toNat_of_nonneg hpositive, ← hA.constant_eq hv]
    exact ihl.bind ((gives_pure _).bind (gives_pure _))
  | negate _ ih =>
    rw [polynomial, eval_neg, ← hA.negated]
    exact ih.bind (gives_pure _)
  | brackets _ ih => exact ih
  | call hname _ ih =>
    refine ih.bind ?_
    rw [hname]
    exact gives_pure _
  | call2 hname _ _ _ ihl ihr =>
    refine ihl.bind (ihr.bind ?_)
    rw [hname]
    exact gives_pure _

end Expr

/-! ## Equations -/

theorem mem_of_mem_insertName {name other : String} {names : List String}
    (h : other ∈ insertName name names) : other = name ∨ other ∈ names := by
  induction names with
  | nil => exact .inl (List.mem_singleton.mp h)
  | cons first rest ih =>
    rw [insertName] at h
    split at h
    · exact .inr h
    · split at h
      · exact List.mem_cons.mp h
      · obtain rfl | hrest := List.mem_cons.mp h
        · exact .inr List.mem_cons_self
        · exact (ih hrest).imp_right (List.mem_cons_of_mem first)

theorem mem_of_mem_foldl_insertName {f : String → String} {other : String} {symbols : List String}
    {names : List String}
    (h : other ∈ symbols.foldl (fun names s => insertName (f s) names) names) :
    (∃ s ∈ symbols, other = f s) ∨ other ∈ names := by
  induction symbols generalizing names with
  | nil => exact .inr h
  | cons s symbols ih =>
    obtain ⟨s', hs', rfl⟩ | hnames := ih h
    · exact .inl ⟨s', List.mem_cons_of_mem s hs', rfl⟩
    · exact (mem_of_mem_insertName hnames).imp_left fun hs => ⟨s, List.mem_cons_self, hs⟩

namespace Equation

open Symbolic Evaluation

/-- The symbols of the variables that occur on two sides. -/
def occurring (lhs rhs : Expr) : Set String :=
  {s | ∃ c : Coordinate, s = c.symbol ∧ ∃ name ∈ c.spellings, Expr.var name ∈ postorder lhs rhs}

section

variable {lhs rhs : Expr}

/-- A variable that occurs on two sides that can be computed is read. -/
theorem has_run_of_occurring {α : Type} (A : Arithmetic α) (b : Bindings α)
    (hl : lhs.IsPolynomial) (hr : rhs.IsPolynomial) {c : Coordinate}
    (hc : ∃ name ∈ c.spellings, Expr.var name ∈ postorder lhs rhs) :
    (run A false b lhs rhs).2.has c = true := by
  have hcomputed : (postorder lhs rhs).findSome? (Expr.stop? false) = none := by
    rw [List.findSome?_eq_none_iff]
    intro node hnode
    rw [postorder, List.mem_append, Expr.mem_postorder, Expr.mem_postorder] at hnode
    exact hnode.elim (hr.computed node) (hl.computed node)
  rw [has_run, Expr.reached_eq_self hcomputed]
  exact hc

section

variable {τ : Type} {A : Algebra τ} {Denotes : τ → MvPolynomial String ℤ → Prop}

theorem yields_residualTerm (hl : lhs.IsPolynomial) (hr : rhs.IsPolynomial)
    (hA : A.Sound Denotes) :
    Yields ((ofSides lhs rhs).residualTerm A)
      fun a => Denotes a (rhs.polynomial - lhs.polynomial) ∧
        ∀ s ∈ A.symbols a, s ∈ occurring lhs rhs := by
  have hsymbols : ∀ node, node ∈ rhs.subtrees ∨ node ∈ lhs.subtrees → ∀ c : Coordinate,
      ∀ name ∈ c.spellings, node = .var name → c.symbol ∈ occurring lhs rhs := by
    intro node hnode c name hname hvar
    refine ⟨c, rfl, name, hname, ?_⟩
    rwa [← hvar, postorder, List.mem_append, Expr.mem_postorder, Expr.mem_postorder]
  have hright := hr.yields_toTerm hA fun node hnode => hsymbols node (.inl hnode)
  have hleft := hl.yields_toTerm hA fun node hnode => hsymbols node (.inr hnode)
  refine hright.bind fun right hright => hleft.bind fun left hleft => ?_
  exact Expr.yields_ofResult (hA.minus hright.1 hleft.1)
    (List.forall_mem_append.mpr ⟨hright.2, hleft.2⟩)

/-- Every evaluation of the two sides reads the variables on which the term of the residual
depends. -/
theorem yields_freeVariables (hl : lhs.IsPolynomial) (hr : rhs.IsPolynomial)
    (hA : A.Sound Denotes) :
    Yields ((ofSides lhs rhs).freeVariables A) fun names => ∀ name ∈ names, ∃ c : Coordinate,
      name = String.singleton c.letter ∧
        ∀ {α : Type} (B : Arithmetic α) (b : Bindings α),
          (run B false b lhs rhs).2.has c = true := by
  refine (yields_residualTerm hl hr hA).bind fun residual hresidual => ?_
  refine yields_pure fun name hname => ?_
  obtain ⟨s, hs, rfl⟩ | hnil := mem_of_mem_foldl_insertName hname
  · obtain ⟨c, rfl, hoccurs⟩ := hresidual.2 s hs
    refine ⟨c, ?_, fun B b => has_run_of_occurring B b hl hr hoccurs⟩
    rw [Coordinate.caseKey_symbol]
    rfl
  · cases hnil

end

theorem yields_symbolicValue (hl : lhs.IsPolynomial) (hr : rhs.IsPolynomial) (b : Bindings ℤ) :
    Yields ((ofSides lhs rhs).symbolicValue (.exact b.x) (.exact b.y) (.exact b.t))
      fun v => v = .amount (.exact (eval b.point (rhs.polynomial - lhs.polynomial) : ℤ)) := by
  refine (yields_residualTerm hl hr Term.algebra_sound).bind fun residual hresidual engine => ?_
  have hvalue : residual.value (valuesOf (.exact b.x) (.exact b.y) (.exact b.t)) =
      .ok (.amount (.exact (eval b.point (rhs.polynomial - lhs.polynomial) : ℤ))) := by
    refine (hresidual.1.of_symbols hresidual.2).value_eq fun s hs => ?_
    obtain ⟨c, rfl, -⟩ := hs
    exact valuesOf_symbol b c
  refine ⟨_, ?_, rfl⟩
  rw [hvalue]
  rfl

theorem gives_difference (hl : lhs.IsPolynomial) (hr : rhs.IsPolynomial) {A : Arithmetic ℤ}
    (hA : A.Exact) (b : Bindings ℤ) :
    Gives (difference A false b lhs rhs) (eval b.point (rhs.polynomial - lhs.polynomial)) := by
  rw [eval_sub, ← hA.minus]
  exact (hr.gives_evaluate hA b).bind ((hl.gives_evaluate hA b).bind (gives_pure _))

/-- In every sound algebra the residual of a polynomial equation as a term stands for the polynomial
of its right side less that of its left side, and what the evaluator computes in integers without
rounding is the value of that polynomial. Every evaluation of the two sides reads the variables on
which the term depends. Of terms in normal form the value at integers is computed too, and is the
same. -/
theorem polynomial_residuals_agree (hl : lhs.IsPolynomial) (hr : rhs.IsPolynomial)
    (engine : Engine) :
    let e := ofSides lhs rhs
    (∀ {τ : Type} (A : Algebra τ) (Denotes : τ → MvPolynomial String ℤ → Prop), A.Sound Denotes →
      ∃ residual names,
        ((e.residualTerm A).run engine).1 = .ok residual ∧
        Denotes residual (rhs.polynomial - lhs.polynomial) ∧
        ((e.freeVariables A).run engine).1 = .ok names ∧
        ∀ name ∈ names, ∃ c : Coordinate, name = String.singleton c.letter ∧
          ∀ {α : Type} (B : Arithmetic α) (b : Bindings α),
            (run B false b lhs rhs).2.has c = true) ∧
    Term.algebra.Sound (Term.Denotes Set.univ) ∧
    ∃ residual,
      ((e.residualTerm Term.algebra).run engine).1 = .ok residual ∧
      residual.Denotes (occurring lhs rhs) (rhs.polynomial - lhs.polynomial) ∧
      ∀ x y t : ℤ, ∃ n : ℤ,
        n = eval (Bindings.point ⟨x, y, t⟩) (rhs.polynomial - lhs.polynomial) ∧
        ((e.symbolicValue (.exact x) (.exact y) (.exact t)).run engine).1 =
          .ok (.amount (.exact n)) ∧
        ∀ B : Arithmetic ℤ, B.Exact → (run B false ⟨x, y, t⟩ lhs rhs).1 = .ok n := by
  intro e
  refine ⟨?_, Term.algebra_sound, ?_⟩
  · intro τ A Denotes hA
    obtain ⟨residual, hresidual, hdenotes, -⟩ := yields_residualTerm hl hr hA engine
    obtain ⟨names, hnames, hfree⟩ := yields_freeVariables hl hr hA engine
    exact ⟨residual, names, hresidual, hdenotes, hnames, hfree⟩
  · obtain ⟨residual, hresidual, hdenotes, hsymbols⟩ :=
      yields_residualTerm hl hr Term.algebra_sound engine
    refine ⟨residual, hresidual, hdenotes.of_symbols hsymbols, fun x y t => ?_⟩
    obtain ⟨v, hv, rfl⟩ := yields_symbolicValue hl hr ⟨x, y, t⟩ engine
    exact ⟨_, rfl, hv, fun B hB => gives_difference hl hr hB ⟨x, y, t⟩ .none⟩

end

/-- The name of a function of two arguments that has one, and a name that is no function. -/
theorem polynomial_residuals_agree_calls :
    let lhs := Expr.binary (.call "Hypot" (.binary (.var "x") .power (.number 2.0))) .subtract
      (.number 3.0)
    let rhs := Expr.negate (.brackets (.binary (.var "Y") .multiply
      (.call2 "Foo" (.var "t") (.var "X") false)))
    (lhs.IsPolynomial ∧ rhs.IsPolynomial) ∧
      (((ofSides lhs rhs).symbolicValue (.exact 5) (.exact 2) (.exact 7)).run .empty).1 =
        .ok (.amount (.exact 8)) ∧
      (run .integers false ⟨5, 2, 7⟩ lhs rhs).1 = .ok 8 := by
  intro lhs rhs
  have hsquare : (Expr.binary (.var "x") .power (.number 2.0)).IsPolynomial :=
    .power (.var (c := .x) (by decide)) (by decide +kernel) (by decide +kernel)
  have hl : lhs.IsPolynomial := .subtract (.call (by cbv) hsquare) (.number (by decide +kernel))
  have hfoo : (Expr.call2 "Foo" (.var "t") (.var "X") false).IsPolynomial :=
    .call2 (by cbv) (.var (c := .t) (by decide)) (.var (c := .x) (by decide)) false
  have hr : rhs.IsPolynomial :=
    .negate (.brackets (.multiply (.var (c := .y) (by decide)) hfoo))
  obtain ⟨-, -, -, -, -, hvalues⟩ := polynomial_residuals_agree hl hr .empty
  obtain ⟨n, hn, hsymbolic, hexact⟩ := hvalues 5 2 7
  have hx : Engine.symbolName "x" = "x" := Coordinate.symbolName_eq (c := .x) (by decide)
  have hy : Engine.symbolName "Y" = "y" := Coordinate.symbolName_eq (c := .y) (by decide)
  have ht : Engine.symbolName "t" = "t" := Coordinate.symbolName_eq (c := .t) (by decide)
  have htwo : Integral.value 2.0 = 2 := by decide +kernel
  have hthree : Integral.value 3.0 = 3 := by decide +kernel
  obtain rfl : n = 8 := by
    rw [hn]
    simp [lhs, rhs, Expr.polynomial, hx, hy, ht, htwo, hthree, Bindings.point]
  exact ⟨⟨hl, hr⟩, hsymbolic, hexact .integers Arithmetic.integers_exact⟩

end Equation
end Isotherm
