import Isotherm.Proofs.Evaluation.Understood

/-!
# What an evaluation reads

The evaluator computes the nodes of a tree one after another, operands before what joins them, from
left to right, and stops at the first node that it cannot compute. So the variables it has read when
it ends are the leaves in front of that node, and all leaves of the tree if there is none. What was
read stays read, over any number of evaluations.
-/

namespace Isotherm

/-! ## Variables -/

theorem toNat_toUpper (c : Char) :
    c.toUpper.toNat = if 97 ≤ c.toNat ∧ c.toNat ≤ 122 then c.toNat - 32 else c.toNat := by
  unfold Char.toUpper
  have hlow : 'a'.val ≤ c.val ↔ 97 ≤ c.toNat := UInt32.le_iff_toNat_le
  have hhigh : c.val ≤ 'z'.val ↔ c.toNat ≤ 122 := UInt32.le_iff_toNat_le
  split
  next h =>
    rw [hlow, hhigh] at h
    rw [if_pos h]
    show (c.val + ('A'.val - 'a'.val)).toNat = c.toNat - 32
    rw [UInt32.toNat_add]
    have hshift : ('A'.val - 'a'.val).toNat = 2 ^ 32 - 32 := by decide
    rw [hshift]
    show (c.toNat + _) % _ = _
    omega
  next h =>
    rw [hlow, hhigh] at h
    rw [if_neg h]

namespace Coordinate

/-- The two spellings of a variable. -/
def spellings : Coordinate → List String
  | x => ["X", "x"]
  | y => ["Y", "y"]
  | t => ["T", "t"]

/-- The letter of a variable, in upper case. -/
def letter : Coordinate → Char
  | x => 'X'
  | y => 'Y'
  | t => 'T'

theorem latinUpper_eq_iff (coordinate : Coordinate) (c : Char) :
    latinUpper c = [coordinate.letter] ↔ c = coordinate.letter ∨ c = coordinate.letter.toLower := by
  have hplain : c.toUpper = coordinate.letter ↔
      c = coordinate.letter ∨ c = coordinate.letter.toLower := by
    rw [← Char.toNat_inj, toNat_toUpper, ← Char.toNat_inj, ← Char.toNat_inj]
    cases coordinate <;> simp [letter] <;> split_ifs <;> omega
  unfold latinUpper
  split
  case h_11 => rw [List.singleton_inj, hplain]
  all_goals cases coordinate <;> decide

theorem latinUpper_ne_nil (c : Char) : latinUpper c ≠ [] := by
  unfold latinUpper
  split <;> simp

theorem caseKey_eq_iff (coordinate : Coordinate) (name : String) :
    caseKey name = [coordinate.letter] ↔ name ∈ coordinate.spellings := by
  have hspelled : name ∈ coordinate.spellings ↔
      ∃ c, name.toList = [c] ∧ (c = coordinate.letter ∨ c = coordinate.letter.toLower) := by
    cases coordinate <;> simp [spellings, letter, ← String.toList_inj, and_or_left, exists_or]
  rw [hspelled, caseKey]
  constructor
  · intro h
    cases hname : name.toList with
    | nil =>
      rw [hname] at h
      cases h
    | cons c cs =>
      rw [hname, List.flatMap_cons] at h
      obtain ⟨hc, -⟩ | ⟨hc, hcs⟩ := List.append_eq_singleton_iff.mp h
      · exact absurd hc (latinUpper_ne_nil c)
      · obtain rfl : cs = [] := by
          cases cs with
          | nil => rfl
          | cons c' cs =>
            rw [List.flatMap_cons] at hcs
            exact absurd (List.append_eq_nil_iff.mp hcs).1 (latinUpper_ne_nil c')
        exact ⟨c, rfl, (latinUpper_eq_iff coordinate c).mp hc⟩
  · intro h
    obtain ⟨c, hname, hc⟩ := h
    rw [hname, List.flatMap_singleton, latinUpper_eq_iff]
    exact hc

theorem ofName?_eq_some_iff (name : String) (c : Coordinate) :
    ofName? name = some c ↔ name ∈ c.spellings := by
  rw [← caseKey_eq_iff]
  unfold ofName?
  split <;> cases c <;> simp_all [letter]

end Coordinate

/-- Whether a variable was read. -/
def Reads.has (r : Reads) : Coordinate → Bool
  | .x => r.x
  | .y => r.y
  | .t => r.t

theorem Coordinate.has_mark (c c' : Coordinate) (s : Reads) :
    (c'.mark s).has c = true ↔ s.has c = true ∨ c' = c := by
  cases c <;> cases c' <;> simp [mark, Reads.has]

/-! ## The nodes of a tree, in the order of evaluation -/

namespace Expr

/-- The nodes of a tree: operands before what joins them, from left to right. -/
def postorder : Expr → List Expr
  | number v => [number v]
  | var name => [var name]
  | binary l o r => l.postorder ++ (r.postorder ++ [binary l o r])
  | negate e => e.postorder ++ [negate e]
  | brackets e => e.postorder ++ [brackets e]
  | call name e => e.postorder ++ [call name e]
  | call2 name l r infixed => l.postorder ++ (r.postorder ++ [call2 name l r infixed])
  | foreign => [foreign]

theorem mem_postorder (node e : Expr) : node ∈ e.postorder ↔ node ∈ e.subtrees := by
  induction e with
  | number | var | foreign => rfl
  | negate e ih | brackets e ih | call name e ih =>
    simp only [postorder, subtrees, List.mem_append, List.mem_cons, ih, List.not_mem_nil, or_false]
    exact or_comm
  | binary l o r ihl ihr | call2 name l r infixed ihl ihr =>
    simp only [postorder, subtrees, List.mem_append, List.mem_cons, ihl, ihr, List.not_mem_nil,
      or_false]
    tauto

/-- Why a node cannot be computed, whatever its operands are. -/
def stop? (strict : Bool) : Expr → Option Stop
  | binary _ (.unknown symbol) _ => some (.unknownOperator symbol)
  | call name _ =>
    if strict && (Function1.ofName? name).isNone then some (.unknownFunction name 1) else none
  | call2 name _ _ _ =>
    if strict && (Function2.ofName? name).isNone then some (.unknownFunction name 2) else none
  | foreign => some .foreign
  | _ => none

/-- The nodes in front of the first that cannot be computed. -/
def reached (strict : Bool) (nodes : List Expr) : List Expr :=
  nodes.takeWhile fun node => (node.stop? strict).isNone

theorem reached_eq_self {strict : Bool} {nodes : List Expr}
    (h : nodes.findSome? (stop? strict) = none) : reached strict nodes = nodes := by
  refine List.takeWhile_eq_self_iff.mpr fun node hnode => ?_
  rw [Option.isNone_iff_eq_none]
  exact List.findSome?_eq_none_iff.mp h node hnode

/-- What has been read after a node. -/
def mark (s : Reads) : Expr → Reads
  | var name =>
    match Coordinate.ofName? name with
    | some c => c.mark s
    | none => s
  | _ => s

theorem has_mark (c : Coordinate) (s : Reads) (node : Expr) :
    (node.mark s).has c = true ↔ s.has c = true ∨ ∃ name ∈ c.spellings, node = var name := by
  cases node with
  | var name =>
    have hspelled : (∃ other ∈ c.spellings, var name = var other) ↔
        Coordinate.ofName? name = some c := by
      simp [Coordinate.ofName?_eq_some_iff]
    rw [hspelled, mark]
    cases hname : Coordinate.ofName? name with
    | none => simp
    | some c' => simpa using Coordinate.has_mark c c' s
  | _ => simp [mark]

/-- Going through nodes one after another: why that stops, and what has been read by then. -/
def walk (strict : Bool) : List Expr → Reads → Option Stop × Reads
  | [], s => (none, s)
  | node :: nodes, s =>
    match node.stop? strict with
    | some cause => (some cause, s)
    | none => walk strict nodes (node.mark s)

theorem walk_append (strict : Bool) (nodes nodes' : List Expr) (s : Reads) :
    walk strict (nodes ++ nodes') s =
      match walk strict nodes s with
      | (none, r) => walk strict nodes' r
      | (some cause, r) => (some cause, r) := by
  induction nodes generalizing s with
  | nil => rfl
  | cons node nodes ih =>
    rw [List.cons_append, walk, walk]
    cases node.stop? strict with
    | some cause => rfl
    | none => exact ih _

theorem walk_fst (strict : Bool) (nodes : List Expr) (s : Reads) :
    (walk strict nodes s).1 = nodes.findSome? (stop? strict) := by
  induction nodes generalizing s with
  | nil => rfl
  | cons node nodes ih =>
    rw [walk, List.findSome?_cons]
    cases node.stop? strict with
    | some cause => rfl
    | none => exact ih _

theorem has_walk (strict : Bool) (nodes : List Expr) (s : Reads) (c : Coordinate) :
    (walk strict nodes s).2.has c = true ↔
      s.has c = true ∨ ∃ name ∈ c.spellings, var name ∈ reached strict nodes := by
  induction nodes generalizing s with
  | nil => simp [walk, reached]
  | cons node nodes ih =>
    rw [walk, reached, List.takeWhile_cons]
    cases hstop : node.stop? strict with
    | some cause => simp
    | none =>
      dsimp only
      rw [ih, has_mark, Option.isNone_none, if_pos rfl, or_assoc]
      simp only [List.mem_cons, reached, and_or_left, exists_or, eq_comm]

end Expr

/-! ## Evaluations -/

namespace Evaluation

variable {α β : Type} {strict : Bool} {nodes nodes' : List Expr}

/-- Why the evaluation stopped, if it did, and what was read by then. -/
def ending (o : Except Stop α × Reads) : Option Stop × Reads :=
  match o with
  | (.ok _, r) => (none, r)
  | (.error cause, r) => (some cause, r)

/-- The evaluation reads and stops as it goes through the nodes. -/
def Walks (strict : Bool) (m : Evaluation α) (nodes : List Expr) : Prop :=
  ∀ s, ending (m.outcome s) = Expr.walk strict nodes s

theorem Walks.bind {m : Evaluation α} {k : α → Evaluation β} (h : m.Walks strict nodes)
    (hk : ∀ a, (k a).Walks strict nodes') : (m >>= k).Walks strict (nodes ++ nodes') := by
  intro s
  have hs := h s
  rw [outcome_bind, Expr.walk_append, ← hs]
  cases m.outcome s with
  | mk result r =>
    cases result with
    | ok a => exact hk a r
    | error cause => rfl

/-- A node that is computed once its operands are. -/
theorem walks_pure {node : Expr} (hstop : node.stop? strict = none) (hmark : ∀ s, node.mark s = s)
    (a : α) : (pure a : Evaluation α).Walks strict [node] := by
  intro s
  rw [Expr.walk, hstop, Expr.walk]
  exact congrArg _ (hmark s).symm

theorem walks_throw {node : Expr} {cause : Stop} (hstop : node.stop? strict = some cause) :
    (throw cause : Evaluation α).Walks strict [node] := by
  intro s
  rw [Expr.walk, hstop]
  rfl

theorem walks_readVariable (A : Arithmetic α) (b : Bindings α) (name : String) :
    (Expr.readVariable A b name).Walks strict [.var name] := by
  intro s
  have hstop : (Expr.var name).stop? strict = none := rfl
  rw [Expr.walk, hstop, Expr.walk, Expr.mark, Expr.readVariable]
  cases Coordinate.ofName? name <;> rfl

/-- An evaluation goes through the nodes of its tree in their order. -/
theorem walks_evaluate (A : Arithmetic α) (strict : Bool) (b : Bindings α) (e : Expr) :
    (e.evaluate A strict b).Walks strict e.postorder := by
  induction e with
  | number v => exact walks_pure rfl (fun _ => rfl) _
  | var name => exact walks_readVariable A b name
  | binary l o r ihl ihr =>
    refine ihl.bind fun left => ihr.bind fun right => ?_
    cases o with
    | unknown symbol => exact walks_throw rfl
    | _ => exact walks_pure rfl (fun _ => rfl) _
  | negate e ih => exact ih.bind fun _ => walks_pure rfl (fun _ => rfl) _
  | brackets e ih =>
    rw [Expr.evaluate, ← bind_pure (e.evaluate A strict b)]
    exact ih.bind fun _ => walks_pure rfl (fun _ => rfl) _
  | call name e ih =>
    refine ih.bind fun value => ?_
    cases hname : Function1.ofName? name with
    | some f => exact walks_pure (by simp [Expr.stop?, hname]) (fun _ => rfl) _
    | none =>
      cases strict with
      | true => exact walks_throw (by simp [Expr.stop?, hname])
      | false => exact walks_pure rfl (fun _ => rfl) _
  | call2 name l r infixed ihl ihr =>
    refine ihl.bind fun first => ihr.bind fun second => ?_
    cases hname : Function2.ofName? name with
    | some f => exact walks_pure (by simp [Expr.stop?, hname]) (fun _ => rfl) _
    | none =>
      cases strict with
      | true => exact walks_throw (by simp [Expr.stop?, hname])
      | false => exact walks_pure rfl (fun _ => rfl) _
  | foreign => exact walks_throw rfl

/-- One evaluation sets the flags of the leaves it reaches, and clears none. -/
theorem Walks.has {m : Evaluation α} (h : m.Walks strict nodes) (s : Reads) (c : Coordinate) :
    (m.outcome s).2.has c = true ↔
      s.has c = true ∨ ∃ name ∈ c.spellings, Expr.var name ∈ Expr.reached strict nodes := by
  have hreads : (ending (m.outcome s)).2 = (m.outcome s).2 := by
    cases m.outcome s with
    | mk result r => cases result <;> rfl
  rw [← hreads, h s]
  exact Expr.has_walk strict nodes s c

/-- An evaluation stops at the first node that cannot be computed. -/
theorem Walks.stop {m : Evaluation α} (h : m.Walks strict nodes) (s : Reads) (cause : Stop) :
    (m.outcome s).1 = .error cause ↔ nodes.findSome? (Expr.stop? strict) = some cause := by
  rw [← Expr.walk_fst strict nodes s, ← h s]
  cases m.outcome s with
  | mk result r => cases result <;> simp [ending]

/-! ## Many requests in a row -/

/-- What can be asked for over and over: the value of a variable, or that of a tree. -/
inductive Request where
  | read (name : String)
  | evaluate (e : Expr)

/-- The nodes that a request goes through, if nothing stops it. -/
def Request.postorder : Request → List Expr
  | read name => [.var name]
  | evaluate e => e.postorder

def Request.run (A : Arithmetic α) (strict : Bool) (b : Bindings α) : Request → Evaluation α
  | read name => Expr.readVariable A b name
  | evaluate e => e.evaluate A strict b

theorem walks_request (A : Arithmetic α) (strict : Bool) (b : Bindings α) (request : Request) :
    (request.run A strict b).Walks strict request.postorder := by
  cases request with
  | read name => exact walks_readVariable A b name
  | evaluate e => exact walks_evaluate A strict b e

/-- What has been read after some requests, each of which may have stopped on its way. -/
def readsAfter (A : Arithmetic α) (strict : Bool) (b : Bindings α) (requests : List Request)
    (s : Reads) : Reads :=
  requests.foldl (fun s request => ((request.run A strict b).outcome s).2) s

theorem has_readsAfter (A : Arithmetic α) (strict : Bool) (b : Bindings α)
    (requests : List Request) (s : Reads) (c : Coordinate) :
    (readsAfter A strict b requests s).has c = true ↔ s.has c = true ∨
      ∃ request ∈ requests, ∃ name ∈ c.spellings,
        Expr.var name ∈ Expr.reached strict request.postorder := by
  induction requests generalizing s with
  | nil => simp [readsAfter]
  | cons request requests ih =>
    refine (ih _).trans ?_
    rw [(walks_request A strict b request).has s c, or_assoc]
    simp only [List.mem_cons, exists_eq_or_imp]

end Evaluation

/-! ## Equations -/

namespace Equation

open Evaluation

/-- The nodes of two sides in the order of evaluation, the right side first. -/
def postorder (lhs rhs : Expr) : List Expr :=
  rhs.postorder ++ lhs.postorder

theorem walks_difference {α : Type} (A : Arithmetic α) (strict : Bool) (b : Bindings α)
    (lhs rhs : Expr) : (difference A strict b lhs rhs).Walks strict (postorder lhs rhs) := by
  have hpure (a : α) : (pure a : Evaluation α).Walks strict [] := fun _ => rfl
  have hwalks := (walks_evaluate A strict b rhs).bind fun right =>
    (walks_evaluate A strict b lhs).bind fun left => hpure (A.minus right left)
  rwa [List.append_nil] at hwalks

theorem has_run {α : Type} (A : Arithmetic α) (strict : Bool) (b : Bindings α) (lhs rhs : Expr)
    (c : Coordinate) : (run A strict b lhs rhs).2.has c = true ↔
      ∃ name ∈ c.spellings, Expr.var name ∈ Expr.reached strict (postorder lhs rhs) := by
  have hnone : Reads.none.has c = false := by cases c <;> rfl
  refine ((walks_difference A strict b lhs rhs).has .none c).trans ?_
  rw [hnone, Bool.false_eq_true, false_or]

theorem stop_run {α : Type} (A : Arithmetic α) (strict : Bool) (b : Bindings α) (lhs rhs : Expr)
    (cause : Stop) : (run A strict b lhs rhs).1 = .error cause ↔
      (postorder lhs rhs).findSome? (Expr.stop? strict) = some cause :=
  (walks_difference A strict b lhs rhs).stop .none cause

/-! Past the largest double there is no coordinate, and no evaluation takes place. -/

section

variable {strict : Bool} {x y t : Scalar}

theorem residualAt_of_overflow
    (h : x.toFloat? = none ∨ y.toFloat? = none ∨ t.toFloat? = none) (e : Equation) :
    e.residualAt strict x y t = .error .overflow := by
  unfold residualAt
  split
  next hx hy ht => simp [hx, hy, ht] at h
  next => rfl

theorem readsAt_of_overflow
    (h : x.toFloat? = none ∨ y.toFloat? = none ∨ t.toFloat? = none) (e : Equation) :
    e.readsAt strict x y t = none := by
  unfold readsAt
  split
  next hx hy ht _ => simp [hx, hy, ht] at h
  next => rfl

end

/-- A residual, also one put in the place of a fault, comes from the run of the two sides. -/
theorem exists_run_of_residualAt {e : Equation} {strict : Bool} {x y t : Scalar} {r : Residual}
    (h : e.residualAt strict x y t = .ok r) :
    ∃ lhs rhs b, e.sides? = some (lhs, rhs) ∧
      r.timeUsed = (run .point strict b lhs rhs).2.has .t ∧
      ∀ cause, r.recovered = some cause ↔ (run .point strict b lhs rhs).1 = .error cause := by
  unfold residualAt at h
  split at h
  next x' y' t' _ _ _ =>
    cases hsides : e.sides? with
    | none =>
      rw [hsides] at h
      cases h
    | some sides =>
      obtain ⟨lhs, rhs⟩ := sides
      rw [hsides] at h
      refine ⟨lhs, rhs, ⟨x', y', t'⟩, rfl, ?_⟩
      cases strict with
      | true =>
        simp only [strictResidual, if_true] at h
        cases hrun : run .point true ⟨x', y', t'⟩ lhs rhs with
        | mk outcome reads =>
          rw [hrun] at h
          cases outcome with
          | ok value =>
            obtain rfl := Except.ok.inj h
            exact ⟨rfl, by simp⟩
          | error cause => cases cause <;> cases h
      | false =>
        simp only [residual, Bool.false_eq_true, if_false] at h
        cases hrun : run .point false ⟨x', y', t'⟩ lhs rhs with
        | mk outcome reads =>
          rw [hrun] at h
          cases outcome with
          | ok value =>
            obtain rfl := Except.ok.inj h
            exact ⟨rfl, by simp⟩
          | error cause =>
            obtain rfl := Except.ok.inj h
            exact ⟨rfl, by simp⟩
  next => cases h

/-- The variables read are the leaves in front of the first node that cannot be computed, and
nothing clears them. This holds of any number of readings and evaluations in a row, whichever of
them stop, and of the residual of an equation, whose right side comes first. A residual without a
fault has read all variables of both sides. -/
theorem reads_reached_leaves :
    (∀ {α : Type} (A : Arithmetic α) (strict : Bool) (b : Bindings α) (requests : List Request)
        (s : Reads) (c : Coordinate),
      (readsAfter A strict b requests s).has c = true ↔ s.has c = true ∨
        ∃ request ∈ requests, ∃ name ∈ c.spellings,
          Expr.var name ∈ Expr.reached strict request.postorder) ∧
    (∀ {α : Type} (A : Arithmetic α) (strict : Bool) (b : Bindings α)
        (requests later : List Request) (s : Reads) (c : Coordinate),
      (readsAfter A strict b requests s).has c = true →
        (readsAfter A strict b (requests ++ later) s).has c = true) ∧
    (∀ {α : Type} (A : Arithmetic α) (strict : Bool) (b : Bindings α) (e : Expr) (s : Reads)
        (cause : Stop),
      ((e.evaluate A strict b).outcome s).1 = .error cause ↔
        e.postorder.findSome? (Expr.stop? strict) = some cause) ∧
    ∀ (e : Equation) (strict : Bool) (x y t : Scalar) (r : Residual),
      e.residualAt strict x y t = .ok r → ∃ lhs rhs, e.sides? = some (lhs, rhs) ∧
        r.recovered = (postorder lhs rhs).findSome? (Expr.stop? strict) ∧
        (r.timeUsed = true ↔
          ∃ name ∈ ["T", "t"], Expr.var name ∈ Expr.reached strict (postorder lhs rhs)) ∧
        (r.recovered = none → (r.timeUsed = true ↔
          ∃ name ∈ ["T", "t"], Expr.var name ∈ lhs.subtrees ∨ Expr.var name ∈ rhs.subtrees)) := by
  refine ⟨fun A strict b => has_readsAfter A strict b, ?_, ?_, ?_⟩
  · intro α A strict b requests later s c h
    rw [readsAfter, List.foldl_append]
    exact (has_readsAfter A strict b later _ c).mpr (.inl h)
  · intro α A strict b e s cause
    exact (walks_evaluate A strict b e).stop s cause
  · intro e strict x y t r h
    obtain ⟨lhs, rhs, b, hsides, hused, hrecovered⟩ := exists_run_of_residualAt h
    have hstop : r.recovered = (postorder lhs rhs).findSome? (Expr.stop? strict) := by
      ext cause
      exact (hrecovered cause).trans (stop_run .point strict b lhs rhs cause)
    have htime : r.timeUsed = true ↔
        ∃ name ∈ ["T", "t"], Expr.var name ∈ Expr.reached strict (postorder lhs rhs) := by
      rw [hused]
      exact has_run .point strict b lhs rhs .t
    refine ⟨lhs, rhs, hsides, hstop, htime, fun hnone => htime.trans ?_⟩
    rw [Expr.reached_eq_self (hstop.symm.trans hnone), postorder]
    simp only [List.mem_append, Expr.mem_postorder, or_comm]

/-- The right side faults, so the time on the left is not read; that in the call of an unknown
function would be. -/
theorem reads_reached_leaves_fault :
    let lhs := Expr.call2 "Foo" (.var "x") (.var "T") false
    let rhs := Expr.binary (.var "x") (.unknown "&") (.var "Y")
    let r : Residual := ⟨0.0, false, some (.unknownOperator "&")⟩
    (ofSides lhs rhs).residualAt false (.real 0.5) (.real 1.0) (.real 2.0) = .ok r ∧
      ∃ lhs' rhs', (ofSides lhs rhs).sides? = some (lhs', rhs') ∧
        r.recovered = (postorder lhs' rhs').findSome? (Expr.stop? false) ∧
        (r.timeUsed = true ↔
          ∃ name ∈ ["T", "t"], Expr.var name ∈ Expr.reached false (postorder lhs' rhs')) ∧
        (r.recovered = none → (r.timeUsed = true ↔
          ∃ name ∈ ["T", "t"], Expr.var name ∈ lhs'.subtrees ∨ Expr.var name ∈ rhs'.subtrees)) := by
  intro lhs rhs r
  have hr : (ofSides lhs rhs).residualAt false (.real 0.5) (.real 1.0) (.real 2.0) = .ok r := rfl
  exact ⟨hr, reads_reached_leaves.2.2.2 (ofSides lhs rhs) false _ _ _ r hr⟩

end Equation
end Isotherm
