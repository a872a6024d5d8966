import Isotherm.Proofs.Formula.Language
import Isotherm.Proofs.Formula.Places
import Mathlib

/-!
# Tokens that stand elsewhere

The readers go by the kinds and texts of tokens. When every token is moved, they take the same
tokens to the same tree, or fail at the same token with the same complaint, which they then find
where the token has been moved to.
-/

namespace Isotherm

/-- The token, at the place where its old place has been moved to. -/
def Token.relocate (place : Nat → Nat) (t : Token) : Token :=
  { t with position := place t.position }

@[simp] theorem Token.relocate_text (place : Nat → Nat) (t : Token) :
    (t.relocate place).text = t.text := rfl

/-- The same complaint about the tokens where they have been moved to. -/
def ParseFault.relocate (place : Nat → Nat) : ParseFault → ParseFault
  | unexpectedCharacter c position => unexpectedCharacter c (place position)
  | empty => empty
  | expected wanted found => expected wanted (found.map (·.relocate place))
  | unexpectedToken found => unexpectedToken (found.relocate place)
  | unexpectedEnd => unexpectedEnd
  | uncalled name found => uncalled (name.relocate place) (found.map (·.relocate place))

namespace ParseFault

variable (place : Nat → Nat)

/-- What is said about a fault does not depend on where it is. -/
theorem detail_relocate (fault : ParseFault) : (fault.relocate place).detail = fault.detail := by
  cases fault with
  | expected wanted found => cases found <;> rfl
  | _ => rfl

theorem position_relocate (size : Nat) (fault : ParseFault) :
    (fault.relocate place).position (place size) = place (fault.position size) := by
  cases fault with
  | expected wanted found | uncalled name found => cases found <;> rfl
  | _ => rfl

end ParseFault

namespace Grammar

variable (place : Nat → Nat) {ts : List Token}

/-! ## Trees -/

theorem Joins.relocate {c : Chain} {t : Token} {join : Expr → Expr → Expr} (h : Joins c t join) :
    Joins c (t.relocate place) join := by
  cases h with
  | infixed h => exact .infixed (t := t.relocate place) h
  | plus h => exact .plus h
  | minus h => exact .minus h
  | multiply h => exact .multiply h
  | divide h => exact .divide h
  | modulus h => exact .modulus h

/-- A phrase keeps its tree wherever its tokens stand. -/
theorem Derives.relocate {level : Level} {e : Expr} (h : Derives level ts e) :
    Derives level (ts.map (·.relocate place)) e := by
  induction h with
  | operand _ ih => exact .operand ih
  | chain _ ht _ ihl ihr => simpa using Derives.chain ihl (ht.relocate place) ihr
  | base _ ih => exact .base ih
  | @power _ _ _ _ t _ ht _ ihl ihr => simpa using ihl.power (t := t.relocate place) ht ihr
  | primary _ ih => exact .primary ih
  | negateGroup ht _ ih => exact .negateGroup ht ih
  | negate ht _ hne ih => exact .negate ht ih hne
  | @number t _ ht => exact .number (t := t.relocate place) ht
  | @var t ht => exact .var (t := t.relocate place) ht
  | @call f o c _ _ hf ho _ hc ih =>
    simpa using ih.call (f := f.relocate place) (o := o.relocate place) hf ho
      (c := c.relocate place) hc
  | @call2 f o m c _ _ _ _ hf ho _ hm _ hc ihl ihr =>
    simpa using ihl.call2 (f := f.relocate place) (o := o.relocate place) hf ho
      (m := m.relocate place) hm ihr (c := c.relocate place) hc
  | @group o c _ _ ho _ hc ih =>
    simpa using ih.group (o := o.relocate place) ho (c := c.relocate place) hc

theorem DerivesEquation.relocate {e : Equation} (h : DerivesEquation ts e) :
    DerivesEquation (ts.map (·.relocate place)) e := by
  cases h with
  | @sides _ _ _ _ t hl ht hr =>
    simpa using DerivesEquation.sides (hl.relocate place) (t := t.relocate place) ht
      (hr.relocate place)

/-! ## Faults -/

def Due.relocate : Due → Due
  | operand => operand
  | parenthesis name => parenthesis (name.relocate place)
  | joint => joint

namespace Place

/-- A place remembers a token only where the parenthesis of a call is due. -/
def relocate (p : Place) : Place :=
  { p with due := p.due.relocate place }

theorem step_relocate (p : Place) (t : Token) :
    (p.relocate place).step (t.relocate place) = (p.step t).map (relocate place) := by
  obtain ⟨kind, text, position⟩ := t
  obtain ⟨due, opened, crossed⟩ := p
  cases due with
  | operand | parenthesis name => cases kind <;> rfl
  | joint =>
    cases opened with
    | nil => cases crossed <;> cases kind <;> rfl
    | cons o opened => cases o <;> cases kind <;> rfl

theorem run_relocate (p : Place) (ts : List Token) :
    (p.relocate place).run (ts.map (·.relocate place)) = (p.run ts).map (relocate place) := by
  induction ts generalizing p with
  | nil => rfl
  | cons t ts ih =>
    rw [List.map_cons, run_cons, run_cons, step_relocate]
    cases p.step t with
    | none => rfl
    | some q => exact ih q

theorem fault_relocate (p : Place) (next : Option Token) :
    (p.relocate place).fault (next.map (·.relocate place)) = (p.fault next).relocate place := by
  obtain ⟨_ | name | _, _ | ⟨o, opened⟩, _ | _⟩ := p <;> cases next <;> rfl

variable {p q : Place} {rest rest' : List Token} {fault fault' : ParseFault}

variable {place} in
theorem relocate_eq_finish (h : p.relocate place = finish) : p = finish := by
  obtain ⟨_ | name | _, opened, crossed⟩ := p
  · cases h
  · cases h
  · exact h

theorem Refuses.relocate (h : p.Refuses rest) :
    (p.relocate place).Refuses (rest.map (·.relocate place)) := by
  constructor
  · intro t ht
    rw [List.head?_map, Option.mem_map] at ht
    obtain ⟨u, hu, rfl⟩ := ht
    rw [step_relocate, h.next u hu, Option.map_none]
  · intro hnil hfinish
    exact h.unfinished (List.map_eq_nil_iff.mp hnil) (relocate_eq_finish hfinish)

theorem Halts.relocate (h : start.Halts ts fault rest) :
    start.Halts (ts.map (·.relocate place)) (fault.relocate place)
      (rest.map (·.relocate place)) := by
  obtain ⟨us, q, rfl, hrun, hrefuses, rfl⟩ := h
  refine ⟨us.map (·.relocate place), q.relocate place, List.map_append, ?_,
    hrefuses.relocate place, ?_⟩
  · have hrun' := run_relocate place start us
    rwa [hrun] at hrun'
  · rw [List.head?_map, fault_relocate]

/-- What can be read on from a place that refuses the rest is nothing. -/
theorem Refuses.eq_nil {vs : List Token} (h : p.Refuses (vs ++ rest)) (hrun : p.run vs = some q) :
    vs = [] := by
  cases vs with
  | nil => rfl
  | cons t vs =>
    rw [run_cons, h.next t rfl] at hrun
    cases hrun

/-- The tokens that lead to a place which refuses the rest lead to no other such place. -/
theorem Halts.unique (h : p.Halts ts fault rest) (h' : p.Halts ts fault' rest') :
    fault' = fault := by
  obtain ⟨us, q, hts, hrun, hrefuses, hfault⟩ := h
  obtain ⟨us', q', hts', hrun', hrefuses', hfault'⟩ := h'
  have hsame : us' = us ∧ rest' = rest := by
    obtain ⟨vs, hus', hrest⟩ | ⟨vs, hus, hrest'⟩ :=
      List.append_eq_append_iff.mp (hts.symm.trans hts')
    · rw [hus', run_append, hrun, Option.bind_some] at hrun'
      rw [hrest] at hrefuses
      obtain rfl := hrefuses.eq_nil hrun'
      exact ⟨by simpa using hus', by simpa using hrest.symm⟩
    · rw [hus, run_append, hrun', Option.bind_some] at hrun
      rw [hrest'] at hrefuses'
      obtain rfl := hrefuses'.eq_nil hrun
      exact ⟨by simpa using hus.symm, by simpa using hrest'⟩
  obtain ⟨rfl, rfl⟩ := hsame
  obtain rfl : q = q' := Option.some.inj (hrun.symm.trans hrun')
  exact hfault'.symm.trans hfault

end Place

/-- The reader of equations takes the same tokens to the same equation, or finds the same fault. -/
theorem equation_start_relocate (ts : List Token) :
    (Cursor.start (ts.map (·.relocate place))).equation.1 =
      (Cursor.start ts).equation.1.mapError (ParseFault.relocate place) := by
  by_cases hempty : ts = []
  · subst hempty
    rfl
  have hempty' : ts.map (·.relocate place) ≠ [] := by simpa using hempty
  cases hread : (Cursor.start ts).equation.1 with
  | ok e =>
    have he := (equation_start_eq_ok ts e).mp hread
    exact (equation_start_eq_ok _ e).mpr (he.relocate place)
  | error fault =>
    obtain ⟨rest, hhalts⟩ := halts_of_equation_start hempty hread
    have hmoved := hhalts.relocate place
    cases hread' : (Cursor.start (ts.map (·.relocate place))).equation.1 with
    | ok e' =>
      have he' := (equation_start_eq_ok _ e').mp hread'
      exact absurd he'.run hmoved.run_ne_finish
    | error fault' =>
      obtain ⟨rest', hhalts'⟩ := halts_of_equation_start hempty' hread'
      rw [hmoved.unique hhalts']
      rfl

end Grammar
end Isotherm
