import Isotherm.Proofs.Formula.Language
import Isotherm.Proofs.Formula.Places
import Mathlib

/-!
# Where a formula is rejected

A text that is cut into tokens but is no equation is rejected at the first token that no equation
can have there. Where every token is in place, and the formula just ends too early, the error stands
behind the text, or at a function name that ends it and lacks its parenthesis.
-/

namespace Isotherm
namespace Grammar

open Place

/-- The last token is the name of a function, and an operand could stand in its place. -/
def EndsUncalled (ts : List Token) (name : Token) : Prop :=
  ∃ init, ts = init ++ [name] ∧ name.kind = .identifier ∧
    BeginsEquation (init ++ [⟨.var, "x", 0, trivial⟩])

/-- The position of the first token that no equation can have where it stands. Without such a token
it is the end of a text of `size` characters, except behind the name of a function that is not
called. -/
structure FirstMisplaced (size : Nat) (ts : List Token) (position : Nat) : Prop where
  /-- The token that ends the beginnings of equations stands there. -/
  misplaced : ∀ k, BeginsEquation (ts.take k) → ¬BeginsEquation (ts.take (k + 1)) →
    ∃ t, ts[k]? = some t ∧ t.position = position
  exists_misplaced : ¬BeginsEquation ts →
    ∃ k < ts.length, BeginsEquation (ts.take k) ∧ ¬BeginsEquation (ts.take (k + 1))
  uncalled : BeginsEquation ts → ∀ name, EndsUncalled ts name → position = name.position
  ended : BeginsEquation ts → (∀ name, ¬EndsUncalled ts name) → position = size

/-! ## Positions of faults -/

theorem Place.position_fault_some (p : Place) (t : Token) (size : Nat) :
    (p.fault (some t)).position size = t.position := by
  obtain ⟨_ | name | _, _ | ⟨o, opened⟩, _ | _⟩ := p <;> rfl

theorem Place.position_fault_none (p : Place) (size : Nat)
    (h : ∀ name, p.due ≠ .parenthesis name) : (p.fault none).position size = size := by
  obtain ⟨_ | name | _, _ | ⟨o, opened⟩, _ | _⟩ := p <;> first | rfl | exact absurd rfl (h name)

theorem Place.position_fault_uncalled {p : Place} {name : Token} (size : Nat)
    (h : p.due = .parenthesis name) : (p.fault none).position size = name.position := by
  obtain ⟨due, opened, crossed⟩ := p
  cases h
  rfl

/-! ## Function names at the end -/

theorem Place.step_due_parenthesis {p q : Place} {t name : Token} (h : p.step t = some q)
    (hq : q.due = .parenthesis name) : p.due = .operand ∧ t = name ∧ t.kind = .identifier := by
  unfold step at h
  split at h <;> grind

theorem Place.due_of_step_var {p q : Place} {t : Token} (ht : t.kind = .var)
    (h : p.step t = some q) : p.due = .operand := by
  have hjoint : t.kind ∉ expression.joints := by rw [ht]; decide
  unfold step at h
  split at h <;> grind

/-- A parenthesis is due exactly behind a function name that stands for an operand. -/
theorem due_parenthesis_iff {ts : List Token} {p : Place} (h : start.run ts = some p)
    (name : Token) : p.due = .parenthesis name ↔ EndsUncalled ts name := by
  constructor
  · intro hdue
    obtain hnil | ⟨init, t, hts⟩ := List.eq_nil_or_concat ts
    · subst hnil
      cases h
      cases hdue
    · rw [List.concat_eq_append] at hts
      subst hts
      rw [run_append, Option.bind_eq_some_iff] at h
      obtain ⟨q, hq, hlast⟩ := h
      rw [run_cons, Option.bind_eq_some_iff] at hlast
      obtain ⟨q', hstep, hrun⟩ := hlast
      cases hrun
      obtain ⟨hoperand, hname, hkind⟩ := step_due_parenthesis hstep hdue
      obtain ⟨due, opened, crossed⟩ := q
      cases hoperand
      refine ⟨init, by rw [hname], hname ▸ hkind, (beginsEquation_iff _).mpr ?_⟩
      refine ⟨⟨.joint, opened, crossed⟩, ?_⟩
      rw [run_append, hq]
      rfl
  · rintro ⟨init, hts, hkind, hbegins⟩
    obtain ⟨r, hr⟩ := (beginsEquation_iff _).mp hbegins
    rw [run_append, Option.bind_eq_some_iff] at hr
    obtain ⟨q, hq, hlast⟩ := hr
    rw [run_cons, Option.bind_eq_some_iff] at hlast
    obtain ⟨q', hstep, -⟩ := hlast
    have hoperand := due_of_step_var rfl hstep
    obtain ⟨due, opened, crossed⟩ := q
    cases hoperand
    rw [hts, run_append, hq, Option.bind_some, run_cons, step_name _ _ hkind] at h
    cases h
    rfl

/-! ## The first misplaced token -/

section Halts

variable {us ts rest : List Token} {p q : Place} {fault : ParseFault}

/-- Up to a token without a step everything begins an equation, and nothing does with it. -/
theorem beginsEquation_take_iff {t : Token} (hrun : start.run us = some q)
    (hstep : q.step t = none) (rest : List Token) (k : Nat) :
    BeginsEquation ((us ++ t :: rest).take k) ↔ k ≤ us.length := by
  constructor
  · intro hbegins
    by_contra hlong
    obtain ⟨m, rfl⟩ : ∃ m, k = us.length + (m + 1) := ⟨k - us.length - 1, by omega⟩
    rw [List.take_length_add_append, List.take_succ_cons] at hbegins
    obtain ⟨r, hr⟩ := (beginsEquation_iff _).mp hbegins
    rw [run_append, hrun, Option.bind_some, run_cons, hstep] at hr
    cases hr
  · intro hk
    rw [List.take_append_of_le_length hk]
    exact ((beginsEquation_iff us).mpr ⟨q, hrun⟩).take k

theorem Place.Halts.firstMisplaced (h : start.Halts ts fault rest) (size : Nat) :
    FirstMisplaced size ts (fault.position size) := by
  obtain ⟨us, q, hts, hrun, hrefuses, hfault⟩ := h
  subst hts hfault
  cases rest with
  | nil =>
    rw [List.append_nil]
    have hbegins : BeginsEquation us := (beginsEquation_iff us).mpr ⟨q, hrun⟩
    refine ⟨?_, fun hnot => absurd hbegins hnot, fun _ name hname => ?_, fun _ hnone => ?_⟩
    · intro k _ hnot
      exact absurd (hbegins.take (k + 1)) hnot
    · exact position_fault_uncalled size ((due_parenthesis_iff hrun name).mpr hname)
    · refine position_fault_none q size fun name hdue => hnone name ?_
      exact (due_parenthesis_iff hrun name).mp hdue
  | cons t rest =>
    have htake := beginsEquation_take_iff hrun (hrefuses.next t rfl) rest
    have hnot : ¬BeginsEquation (us ++ t :: rest) := by
      have hall := htake (us ++ t :: rest).length
      rw [List.take_length] at hall
      simp [hall]
    refine ⟨?_, fun _ => ?_, fun hbegins => absurd hbegins hnot, fun hbegins => absurd hbegins hnot⟩
    · intro k hk hsucc
      rw [htake] at hk hsucc
      obtain rfl : k = us.length := by omega
      exact ⟨t, by simp, (position_fault_some q t size).symm⟩
    · refine ⟨us.length, by simp, ?_, ?_⟩
      · exact (htake us.length).mpr (Nat.le_refl _)
      · simp [htake]

end Halts

/-- What the reader of equations does not take, it rejects at the first misplaced token. -/
theorem firstMisplaced_of_equation_start {ts : List Token} {fault : ParseFault}
    (h : (Cursor.start ts).equation.1 = .error fault) (size : Nat) :
    FirstMisplaced size ts (fault.position size) := by
  by_cases hempty : ts = []
  · subst hempty
    cases h
    have hrefuses : start.Refuses [] := ⟨by simp, fun _ => by decide⟩
    exact (hrefuses.halts rfl).firstMisplaced size
  · obtain ⟨rest, hhalts⟩ := halts_of_equation_start hempty h
    exact hhalts.firstMisplaced size

end Grammar

namespace Equation

open Grammar

/-- A text that is cut into tokens but is no equation is rejected at the first token that no
equation can have there, at the place where this token stands in the text; where there is no such
token, at the function name that ends the text and is not called, or else at the end of the text. -/
theorem parse_error_at_first_misplaced {source : String} {ts : List Token} {error : ParseError}
    (hts : Token.tokenize source = .ok ts) (h : parse source = .error error) :
    FirstMisplaced source.length ts error.position ∧ ∀ t ∈ ts, t.StandsIn source.toList := by
  refine ⟨?_, ?_⟩
  · rw [parse_of_tokenize_eq_ok hts] at h
    cases hr : (Cursor.start ts).equation.1 with
    | ok e =>
      rw [hr] at h
      cases h
    | error fault =>
      rw [hr] at h
      cases h
      exact firstMisplaced_of_equation_start hr source.length
  · exact Token.standsIn_of_scan source.toList 0 ((Token.tokenize_eq_ok source ts).mp hts) [] rfl

/-- A second equals sign is out of place. -/
theorem parse_error_at_first_misplaced_equals :
    let two : Token := ⟨.number, "2", 8, by decide +kernel⟩
    let ts : List Token := [⟨.var, "y", 0, trivial⟩, ⟨.equals, "=", 2, trivial⟩, ⟨.var, "x", 4, trivial⟩,
      ⟨.equals, "=", 6, trivial⟩, two]
    let error : ParseError := ⟨"y = x = 2", .unexpectedToken ⟨.equals, "=", 6, trivial⟩⟩
    Token.tokenize "y = x = 2" = .ok ts ∧ parse "y = x = 2" = .error error ∧
      FirstMisplaced "y = x = 2".length ts error.position ∧
      ∀ t ∈ ts, t.StandsIn "y = x = 2".toList := by
  intro two ts error
  have htokens : Token.tokenize "y = x = 2" = .ok ts := by cbv
  have herror : parse "y = x = 2" =
      .error ⟨"y = x = 2", .unexpectedToken ⟨.equals, "=", 6, trivial⟩⟩ := by cbv
  exact ⟨htokens, herror, parse_error_at_first_misplaced htokens herror⟩

end Equation
end Isotherm
