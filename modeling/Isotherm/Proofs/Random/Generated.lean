import Isotherm.Proofs.Evaluation.Understood
import Isotherm.Random.RandomEquation

/-!
# Random equations are well formed

Whatever is drawn, a random expression is made of a few kinds of node, all of which every evaluation
understands; its depth and the number of draws are bounded by the depth it was asked for. One
predicate on random constructions, `Draws`, says all of this, and it goes through every step from the
parts to the whole.
-/

namespace Isotherm

/-! ## The names of the functions -/

theorem Function1.ofName?_name (f : Function1) : Function1.ofName? f.name = some f := by
  have hall : ∀ f ∈ all, ofName? f.name = some f := by decide +kernel
  exact hall f (by cases f <;> decide)

/-- No name stands for a function of one argument and for one of two. -/
theorem Function2.ofName?_name (f : Function2) :
    Function1.ofName? f.name = none ∧ Function2.ofName? f.name = some f := by
  have hall : ∀ f ∈ all, Function1.ofName? f.name = none ∧ ofName? f.name = some f := by
    decide +kernel
  exact hall f (by cases f <;> decide)

theorem Function1.exists_of_mem_allNames {name : String} (h : name ∈ allNames) :
    (∃ f : Function1, f.name = name) ∨ ∃ f : Function2, f.name = name := by
  rw [allNames, List.mem_mergeSort, List.mem_append, List.mem_map, List.mem_map] at h
  rcases h with ⟨f, -, hf⟩ | ⟨f, -, hf⟩
  · exact .inl ⟨f, hf⟩
  · exact .inr ⟨f, hf⟩

variable {σ α β : Type}

/-- The source with a count of the draws that were made. -/
def DrawSource.counted (source : DrawSource σ) : DrawSource (σ × Nat) where
  draw bound positive s :=
    let (n, after) := source.draw bound positive s.1
    (n, after, s.2 + 1)

namespace RandomEquation

/-! ## Nodes -/

/-- A node of a random expression. -/
def Made : Expr → Prop
  | .number v => ∃ k : Nat, k < 400 ∧ v = k.toFloat / 4.0
  | .var name => name ∈ ["X", "Y", "T"]
  | .binary _ o _ => o ∈ Operator.known
  | .negate e => ∃ inner, e = .brackets inner
  | .brackets _ => True
  | .call name _ => ∃ f : Function1, f.name = name ∧ Function1.ofName? name = some f
  | .call2 name _ _ _ => Function1.ofName? name = none ∧
      ∃ f : Function2, f.name = name ∧ Function2.ofName? name = some f
  | .foreign => False

theorem Made.understood {e : Expr} (h : Made e) : e.Understood := by
  cases e with
  | number | var | negate | brackets => trivial
  | binary l o r => exact h
  | call name e =>
    obtain ⟨f, -, hf⟩ := h
    exact Option.isSome_iff_exists.mpr ⟨f, hf⟩
  | call2 name l r infixed =>
    obtain ⟨-, f, -, hf⟩ := h
    exact Option.isSome_iff_exists.mpr ⟨f, hf⟩
  | foreign => exact h

/-- A random expression of at most some depth. -/
structure Grown (depth : Nat) (e : Expr) : Prop where
  made : ∀ s ∈ e.subtrees, Made s
  depth_le : e.depth ≤ depth

theorem Grown.understood {n : Nat} {e : Expr} (h : Grown n e) : ∀ s ∈ e.subtrees, s.Understood :=
  fun s hs => (h.made s hs).understood

section

variable {n : Nat} {e l r : Expr}

theorem grown_number {k : Nat} (hk : k < 400) : Grown (n + 2) (.number (k.toFloat / 4.0)) := by
  refine ⟨List.forall_mem_singleton.mpr ⟨k, hk, rfl⟩, ?_⟩
  simp only [Expr.depth]
  omega

theorem grown_var {name : String} (h : name ∈ ["X", "Y", "T"]) : Grown (n + 1) (.var name) := by
  refine ⟨List.forall_mem_singleton.mpr h, ?_⟩
  simp only [Expr.depth]
  omega

/-- One node above a random expression. -/
theorem Grown.above {e' : Expr} (h : Grown n e) (hsub : e'.subtrees = e' :: e.subtrees)
    (hdepth : e'.depth = e.depth + 1) (hmade : Made e') : Grown (n + 1) e' := by
  refine ⟨?_, ?_⟩
  · rw [hsub, List.forall_mem_cons]
    exact ⟨hmade, h.made⟩
  · have := h.depth_le
    omega

/-- One node above two random expressions. -/
theorem Grown.above_both {e' : Expr} (hl : Grown n l) (hr : Grown n r)
    (hsub : e'.subtrees = e' :: (l.subtrees ++ r.subtrees))
    (hdepth : e'.depth = max l.depth r.depth + 1) (hmade : Made e') : Grown (n + 1) e' := by
  refine ⟨?_, ?_⟩
  · rw [hsub, List.forall_mem_cons, List.forall_mem_append]
    exact ⟨hmade, hl.made, hr.made⟩
  · have := hl.depth_le
    have := hr.depth_le
    omega

theorem Grown.mono {m : Nat} (h : Grown n e) (hnm : n ≤ m) : Grown m e :=
  ⟨h.made, Nat.le_trans h.depth_le hnm⟩

end

/-! ## Random constructions -/

/-- A random construction, without a count of its draws and with one: the outcome is the same, it
satisfies `P`, and at most `cost` draws were made for it. -/
def Draws (m : StateM σ α) (m' : StateM (σ × Nat) α) (cost : Nat) (P : α → Prop) : Prop :=
  ∀ s made, ∃ a after draws, m.run s = (a, after) ∧ m'.run (s, made) = (a, after, made + draws) ∧
    draws ≤ cost ∧ P a

theorem draws_pure {P : α → Prop} {a : α} (h : P a) :
    Draws (pure a : StateM σ α) (pure a) 0 P :=
  fun s _ => ⟨a, s, 0, rfl, rfl, Nat.le_refl 0, h⟩

theorem Draws.bind {m : StateM σ α} {m' : StateM (σ × Nat) α} {k : α → StateM σ β}
    {k' : α → StateM (σ × Nat) β} {c d : Nat} {P : α → Prop} {Q : β → Prop}
    (h : Draws m m' c P) (hk : ∀ a, P a → Draws (k a) (k' a) d Q) :
    Draws (m >>= k) (m' >>= k') (c + d) Q := by
  intro s made
  obtain ⟨a, after, draws, hm, hm', hc, ha⟩ := h s made
  obtain ⟨b, after', draws', hk, hk', hd, hb⟩ := hk a ha after (made + draws)
  refine ⟨b, after', draws + draws', ?_, ?_, Nat.add_le_add hc hd, hb⟩
  · rw [StateT.run_bind, hm]
    exact hk
  · rw [StateT.run_bind, hm', ← Nat.add_assoc]
    exact hk'

theorem Draws.weaken {m : StateM σ α} {m' : StateM (σ × Nat) α} {c d : Nat} {P Q : α → Prop}
    (h : Draws m m' c P) (hcd : c ≤ d) (hPQ : ∀ a, P a → Q a) : Draws m m' d Q := by
  intro s made
  obtain ⟨a, after, draws, hm, hm', hc, ha⟩ := h s made
  exact ⟨a, after, draws, hm, hm', Nat.le_trans hc hcd, hPQ a ha⟩

variable (source : DrawSource σ)

theorem draws_choose (items : List α) (nonempty : items ≠ []) :
    Draws (choose source items nonempty) (choose source.counted items nonempty) 1 (· ∈ items) :=
  fun _ _ => ⟨_, _, 1, rfl, rfl, Nat.le_refl 1, List.getElem_mem _⟩

theorem draws_constant {n : Nat} :
    Draws (constant source) (constant source.counted) 1 (Grown (n + 2)) :=
  fun s _ => ⟨_, _, 1, rfl, rfl, Nat.le_refl 1, grown_number (source.draw 400 _ s).1.isLt⟩

theorem draws_anyVariable {n : Nat} :
    Draws (anyVariable source) (anyVariable source.counted) 1 (Grown (n + 1)) :=
  (draws_choose source _ _).bind fun _ hname => draws_pure (grown_var hname)

theorem draws_infixed : Draws (infixed source) (infixed source.counted) 1 fun _ => True :=
  fun _ _ => ⟨_, _, 1, rfl, rfl, Nat.le_refl 1, trivial⟩

variable {part : StateM σ Expr} {part' : StateM (σ × Nat) Expr} {c n : Nat}

theorem draws_function (h : Draws part part' c (Grown n)) :
    Draws (function source part) (function source.counted part') (2 * c + 2) (Grown (n + 2)) := by
  have hchoose := draws_choose source Function1.allNames allNames_ne_nil
  refine Draws.weaken (hchoose.bind (d := 2 * c + 1) (Q := Grown (n + 1)) fun name hname => ?_)
    (by omega) fun e he => he.mono (Nat.le_succ _)
  rcases Function1.exists_of_mem_allNames hname with ⟨f, rfl⟩ | ⟨f, rfl⟩
  · have hf := f.ofName?_name
    have hmade (e : Expr) : Made (.call f.name e) := ⟨f, rfl, hf⟩
    rw [hf]
    have hcall := h.bind fun e he => draws_pure (he.above rfl rfl (hmade e))
    exact hcall.weaken (by omega) fun _ he => he
  · obtain ⟨hnone, hf⟩ := f.ofName?_name
    have hmade (l r : Expr) (infixed : Bool) : Made (.call2 f.name l r infixed) :=
      ⟨hnone, f, rfl, hf⟩
    rw [hnone]
    have hcall := h.bind fun l hl => h.bind fun r hr =>
      (draws_infixed source).bind fun infixed _ =>
        draws_pure (hl.above_both hr rfl rfl (hmade l r infixed))
    exact hcall.weaken (by omega) fun _ he => he

theorem draws_node (h : Draws part part' c (Grown n)) {kind : NodeKind}
    (hkind : kind ∈ NodeKind.all) :
    Draws (node source part kind) (node source.counted part' kind) (2 * c + 2) (Grown (n + 2)) := by
  cases kind with
  | constant => exact (draws_constant source).weaken (by omega) fun _ he => he
  | coordinate => exact (draws_anyVariable source).weaken (by omega) fun _ he => he
  | binary o =>
    have ho : o ∈ Operator.known := by simpa [NodeKind.all] using hkind
    have hmade (l r : Expr) : Made (.binary l o r) := ho
    have hbinary := h.bind fun l hl => h.bind fun r hr =>
      draws_pure (hl.above_both hr rfl rfl (hmade l r))
    exact hbinary.weaken (by omega) fun _ he => he.mono (Nat.le_succ _)
  | negate =>
    -- the negation and its brackets are the only two nodes of one draw
    have hmade (e : Expr) : Made (.negate (.brackets e)) := ⟨e, rfl⟩
    have hbrackets (e : Expr) : Made (.brackets e) := trivial
    have hnegate := h.bind fun e he =>
      draws_pure ((he.above rfl rfl (hbrackets e)).above rfl rfl (hmade e))
    exact hnegate.weaken (by omega) fun _ he => he
  | brackets =>
    have hmade (e : Expr) : Made (.brackets e) := trivial
    have hbrackets := h.bind fun e he => draws_pure (he.above rfl rfl (hmade e))
    exact hbrackets.weaken (by omega) fun _ he => he.mono (Nat.le_succ _)
  | function => exact draws_function source h

/-- The most draws that an expression of some depth takes. -/
def mostDraws : Nat → Nat
  | 0 => 1
  | depth + 1 => 2 * mostDraws depth + 3

theorem mostDraws_eq (depth : Nat) : mostDraws depth + 3 = 2 ^ (depth + 2) := by
  induction depth with
  | zero => rfl
  | succ depth ih =>
    rw [mostDraws, Nat.pow_succ, ← ih]
    omega

/-- One level of depth is at most two nodes. -/
theorem draws_expression (depth : Nat) :
    Draws (expression source depth) (expression source.counted depth) (mostDraws depth)
      (Grown (2 * depth + 1)) := by
  induction depth with
  | zero => exact draws_anyVariable source
  | succ depth ih =>
    have hnode := (draws_choose source NodeKind.all (by decide)).bind
      fun kind hkind => draws_node source ih hkind
    exact hnode.weaken (by rw [mostDraws]; omega) fun _ he => he

theorem draws_sides (depth : Nat) :
    Draws (sides source depth) (sides source.counted depth) (2 ^ (depth + 3))
      fun s => Grown (2 * depth + 1) s.1 ∧ Grown (2 * depth + 1) s.2 := by
  have hexpression := draws_expression source depth
  have hsides := hexpression.bind fun l hl => hexpression.bind fun r hr =>
    draws_pure (a := (l, r)) (P := fun s => Grown _ s.1 ∧ Grown _ s.2) ⟨hl, hr⟩
  have hmost := mostDraws_eq depth
  exact hsides.weaken (by rw [Nat.pow_succ]; omega) fun _ hs => hs

/-! ## The deepest expressions -/

/-- Negations all the way down. -/
def deepest : Nat → Expr
  | 0 => .var "T"
  | depth + 1 => .negate (.brackets (deepest depth))

theorem depth_deepest (depth : Nat) : (deepest depth).depth = 2 * depth + 1 := by
  induction depth with
  | zero => rfl
  | succ depth ih =>
    simp only [deepest, Expr.depth, ih]
    omega

theorem run_choose_eights {items : List α} {a : α} (ha : items[8 % items.length]? = some a)
    (nonempty : items ≠ []) (made : Nat) :
    (choose .listed items nonempty).run ⟨#[8], made⟩ = (a, ⟨#[8], made + 1⟩) := by
  have hpos := List.length_pos_iff.mpr nonempty
  have hdraw : DrawSource.listed.draw items.length hpos ⟨#[8], made⟩ =
      (⟨8 % items.length, Nat.mod_lt _ hpos⟩, ⟨#[8], made + 1⟩) := by
    simp [DrawSource.listed, Nat.mod_one]
  obtain ⟨_, rfl⟩ := List.getElem?_eq_some_iff.mp ha
  show (items.get (DrawSource.listed.draw items.length hpos ⟨#[8], made⟩).1,
    (DrawSource.listed.draw items.length hpos ⟨#[8], made⟩).2) = _
  rw [hdraw]
  rfl

/-- Where every draw is an eight, as far as its bound allows, every kind is a negation. -/
theorem run_expression_eights (depth made : Nat) :
    (expression .listed depth).run ⟨#[8], made⟩ =
      (deepest depth, ⟨#[8], made + 1 + depth⟩) := by
  induction depth generalizing made with
  | zero =>
    unfold expression anyVariable
    rw [StateT.run_bind, run_choose_eights rfl]
    rfl
  | succ depth ih =>
    unfold expression
    rw [StateT.run_bind, run_choose_eights (a := .negate) rfl]
    show (node .listed (expression .listed depth) .negate).run ⟨#[8], made + 1⟩ = _
    unfold node
    rw [StateT.run_bind, ih, Nat.add_right_comm, Nat.add_assoc]
    rfl

theorem run_sides_eights (depth made : Nat) :
    ((sides .listed depth).run ⟨#[8], made⟩).1 = (deepest depth, deepest depth) := by
  unfold sides
  rw [StateT.run_bind, run_expression_eights]
  show ((expression .listed depth >>= _).run _).1 = _
  rw [StateT.run_bind, run_expression_eights]
  rfl

/-! ## Equations -/

/-- Drawing an equation ends, after a number of draws that the depth bounds, and counting the draws
changes nothing. Its nodes are well formed: the numbers are quarters below a hundred, the variables
are those of the grammar, every negation owns a pair of brackets, every call has as many arguments as
its function. Each side has at most two nodes for each level of depth and one more, and for every
depth some draws reach that. A strict evaluation of the equation, or of the simplified equation, at
any point ends in a residual, if the coordinates are doubles at all. -/
theorem sides_well_formed :
    (∀ (σ : Type) (source : DrawSource σ) (maxDepth : Int) (s : σ),
      ∃ lhs rhs after draws,
        (sides source maxDepth.toNat).run s = ((lhs, rhs), after) ∧
        (sides source.counted maxDepth.toNat).run (s, 0) = ((lhs, rhs), after, draws) ∧
        draws ≤ 2 ^ (maxDepth.toNat + 3) ∧
        (∀ node ∈ lhs.subtrees ++ rhs.subtrees, Made node) ∧
        lhs.depth ≤ 2 * max maxDepth 0 + 1 ∧ rhs.depth ≤ 2 * max maxDepth 0 + 1 ∧
        (Equation.ofSides lhs rhs).NeverFaults true ∧
        ∃ simplified, (Equation.ofSides lhs rhs).checkedSimplify = .ok simplified ∧
          simplified.NeverFaults true) ∧
    ∀ maxDepth : Int, ∃ (s : DrawSource.Listed) (lhs rhs : Expr),
      ((sides .listed maxDepth.toNat).run s).1 = (lhs, rhs) ∧
      lhs.depth = 2 * max maxDepth 0 + 1 ∧ rhs.depth = 2 * max maxDepth 0 + 1 := by
  constructor
  · intro σ source maxDepth s
    obtain ⟨⟨lhs, rhs⟩, after, draws, hrun, hcounted, hdraws, hl, hr⟩ :=
      draws_sides source maxDepth.toNat s 0
    have hnever := Equation.neverFaults_ofSides hl.understood hr.understood true
    have hforeign : (Equation.ofSides lhs rhs).hasForeign = false := by
      simp [Equation.hasForeign, Equation.ofSides, Expr.hasForeign_of_understood hl.understood,
        Expr.hasForeign_of_understood hr.understood]
    rw [Nat.zero_add] at hcounted
    have hld : lhs.depth ≤ 2 * maxDepth.toNat + 1 := hl.depth_le
    have hrd : rhs.depth ≤ 2 * maxDepth.toNat + 1 := hr.depth_le
    refine ⟨lhs, rhs, after, draws, hrun, hcounted, hdraws, ?_, by omega, by omega, hnever,
      _, Equation.checkedSimplify_eq_ok hforeign, hnever.simplify⟩
    exact List.forall_mem_append.mpr ⟨hl.made, hr.made⟩
  · intro maxDepth
    have hdepth := depth_deepest maxDepth.toNat
    exact ⟨⟨#[8], 0⟩, _, _, run_sides_eights maxDepth.toNat 0, by omega, by omega⟩

end RandomEquation
end Isotherm
