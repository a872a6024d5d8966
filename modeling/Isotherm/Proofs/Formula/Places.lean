import Isotherm.Proofs.Formula.Stalls

/-!
# Places in a formula

What may come next in a formula depends on little of what stands in front: whether an operand is
due, which parentheses are open and whether the equals sign is behind. A `Place` holds just that,
and `Place.step` moves it over one token. The phrases of the grammar lead over the places, every
place can be left for the end of an equation, and a reader that fails has come to a place where the
next token has no step. So the places are those of the beginnings of equations.
-/

namespace Isotherm
namespace Grammar

/-- What has to come next. A joint may be any token that can stand behind an operand. -/
inductive Due where
  | operand
  /-- The parenthesis behind the name of a function. -/
  | parenthesis (name : Token)
  | joint
deriving DecidableEq, Repr

/-- What an open parenthesis is open for: the first argument of a call, behind which a comma may
stand, or anything else. -/
inductive Opening where
  | argument | last
deriving DecidableEq, Repr

/-- A place in a formula: what is due there, the open parentheses, innermost first, and whether the
equals sign is behind. -/
structure Place where
  due : Due
  opened : List Opening
  crossed : Bool
deriving DecidableEq, Repr

namespace Place

def start : Place := ⟨.operand, [], false⟩

/-- The place at the end of an equation. -/
def finish : Place := ⟨.joint, [], true⟩

/-- The place behind a token, if the token can stand here. -/
def step (p : Place) (t : Token) : Option Place :=
  match p, t.kind with
  | ⟨.operand, opened, crossed⟩, .number | ⟨.operand, opened, crossed⟩, .var =>
    some ⟨.joint, opened, crossed⟩
  | ⟨.operand, opened, crossed⟩, .minus => some ⟨.operand, opened, crossed⟩
  | ⟨.operand, opened, crossed⟩, .leftParenthesis => some ⟨.operand, .last :: opened, crossed⟩
  | ⟨.operand, opened, crossed⟩, .identifier => some ⟨.parenthesis t, opened, crossed⟩
  | ⟨.parenthesis _, opened, crossed⟩, .leftParenthesis =>
    some ⟨.operand, .argument :: opened, crossed⟩
  | ⟨.joint, .argument :: opened, crossed⟩, .comma => some ⟨.operand, .last :: opened, crossed⟩
  | ⟨.joint, _ :: opened, crossed⟩, .rightParenthesis => some ⟨.joint, opened, crossed⟩
  | ⟨.joint, [], false⟩, .equals => some ⟨.operand, [], true⟩
  | ⟨.joint, opened, crossed⟩, kind =>
    if kind ∈ expression.joints then some ⟨.operand, opened, crossed⟩ else none
  | _, _ => none

/-- The place behind some tokens, if they can stand here. -/
def run (p : Place) : List Token → Option Place
  | [] => some p
  | t :: ts => (p.step t).bind (·.run ts)

/-- What is wrong where the token `next` has no step, or the formula ends too early. -/
def fault : Place → Option Token → ParseFault
  | ⟨.parenthesis name, _, _⟩, next => .uncalled name next
  | ⟨.joint, _ :: _, _⟩, next => .expected TokenKind.rightParenthesis.name next
  | ⟨.joint, [], false⟩, next => .expected TokenKind.equals.name next
  | _, some t => .unexpectedToken t
  | _, none => .unexpectedEnd

@[simp] theorem run_nil (p : Place) : p.run [] = some p := rfl

@[simp] theorem run_cons (p : Place) (t : Token) (ts : List Token) :
    p.run (t :: ts) = (p.step t).bind (·.run ts) := rfl

@[simp] theorem run_append (p : Place) (us vs : List Token) :
    p.run (us ++ vs) = (p.run us).bind (·.run vs) := by
  induction us generalizing p with
  | nil => rfl
  | cons t us ih =>
    rw [List.cons_append, run_cons, run_cons, Option.bind_assoc]
    exact Option.bind_congr fun q _ => ih q

section Steps

variable {t : Token} (opened : List Opening) (crossed : Bool)

theorem step_single (h : t.kind = .number ∨ t.kind = .var) :
    step ⟨.operand, opened, crossed⟩ t = some ⟨.joint, opened, crossed⟩ := by
  obtain ⟨kind, text, position⟩ := t
  cases h with
  | inl h => cases h; rfl
  | inr h => cases h; rfl

theorem step_minus (h : t.kind = .minus) :
    step ⟨.operand, opened, crossed⟩ t = some ⟨.operand, opened, crossed⟩ := by
  obtain ⟨kind, text, position⟩ := t
  cases h
  rfl

theorem step_group (h : t.kind = .leftParenthesis) :
    step ⟨.operand, opened, crossed⟩ t = some ⟨.operand, .last :: opened, crossed⟩ := by
  obtain ⟨kind, text, position⟩ := t
  cases h
  rfl

theorem step_name (h : t.kind = .identifier) :
    step ⟨.operand, opened, crossed⟩ t = some ⟨.parenthesis t, opened, crossed⟩ := by
  obtain ⟨kind, text, position⟩ := t
  cases h
  rfl

theorem step_call (name : Token) (h : t.kind = .leftParenthesis) :
    step ⟨.parenthesis name, opened, crossed⟩ t =
      some ⟨.operand, .argument :: opened, crossed⟩ := by
  obtain ⟨kind, text, position⟩ := t
  cases h
  rfl

theorem step_comma (h : t.kind = .comma) :
    step ⟨.joint, .argument :: opened, crossed⟩ t = some ⟨.operand, .last :: opened, crossed⟩ := by
  obtain ⟨kind, text, position⟩ := t
  cases h
  rfl

theorem step_close (o : Opening) (h : t.kind = .rightParenthesis) :
    step ⟨.joint, o :: opened, crossed⟩ t = some ⟨.joint, opened, crossed⟩ := by
  obtain ⟨kind, text, position⟩ := t
  cases h
  cases o <;> rfl

theorem step_equals (h : t.kind = .equals) :
    step ⟨.joint, [], false⟩ t = some ⟨.operand, [], true⟩ := by
  obtain ⟨kind, text, position⟩ := t
  cases h
  rfl

theorem step_joint (h : t.kind ∈ expression.joints) :
    step ⟨.joint, opened, crossed⟩ t = some ⟨.operand, opened, crossed⟩ := by
  obtain ⟨kind, text, position, admitted⟩ := t
  change kind ∈ expression.joints at h
  -- No joint closes a parenthesis, and none is a comma or the equals sign.
  have hopen (o : Opening) (rest : List Opening) :
      step ⟨.joint, o :: rest, crossed⟩ ⟨kind, text, position, admitted⟩ =
        some ⟨.operand, o :: rest, crossed⟩ := by
    cases kind <;> first | exact absurd h (by decide) | (cases o <;> rfl)
  have houtside : step ⟨.joint, [], crossed⟩ ⟨kind, text, position, admitted⟩ =
      some ⟨.operand, [], crossed⟩ := by
    cases kind <;> first | exact absurd h (by decide) | (cases crossed <;> rfl)
  cases opened with
  | nil => exact houtside
  | cons o rest => exact hopen o rest

end Steps

/-! ## Tokens without a step -/

section Refused

variable {t : Token} {opened : List Opening} {crossed : Bool}

theorem step_operand_eq_none (hminus : t.kind ≠ .minus)
    (h : t.kind ∉ [.number, .var, .identifier, .leftParenthesis]) :
    step ⟨.operand, opened, crossed⟩ t = none := by
  obtain ⟨kind, text, position⟩ := t
  change kind ∉ _ at h
  cases kind <;> first | rfl | exact absurd rfl hminus | exact absurd (by decide) h

theorem step_parenthesis_eq_none {name : Token} (h : t.kind ≠ .leftParenthesis) :
    step ⟨.parenthesis name, opened, crossed⟩ t = none := by
  obtain ⟨kind, text, position⟩ := t
  cases kind <;> first | rfl | exact absurd rfl h

/-- Where no comma may stand inside the innermost parentheses. -/
theorem step_last_eq_none (h : t.kind ∉ expression.joints) (hclose : t.kind ≠ .rightParenthesis) :
    step ⟨.joint, .last :: opened, crossed⟩ t = none := by
  obtain ⟨kind, text, position⟩ := t
  change kind ∉ expression.joints at h
  cases kind <;> first | rfl | exact absurd rfl hclose | exact absurd (by decide) h

theorem step_argument_eq_none (h : t.kind ∉ expression.joints)
    (hclose : t.kind ≠ .rightParenthesis) (hcomma : t.kind ≠ .comma) :
    step ⟨.joint, .argument :: opened, crossed⟩ t = none := by
  obtain ⟨kind, text, position⟩ := t
  change kind ∉ expression.joints at h
  cases kind <;> first
    | rfl
    | exact absurd rfl hclose
    | exact absurd rfl hcomma
    | exact absurd (by decide) h

/-- Where no parenthesis is open. -/
theorem step_outside_eq_none (h : t.kind ∉ expression.joints)
    (hequals : crossed = false → t.kind ≠ .equals) :
    step ⟨.joint, [], crossed⟩ t = none := by
  obtain ⟨kind, text, position⟩ := t
  change kind ∉ expression.joints at h
  cases crossed <;> cases kind <;> first
    | rfl
    | exact absurd rfl (hequals rfl)
    | exact absurd (by decide) h

end Refused

end Place

/-! ## Phrases lead over places -/

open Place

theorem Joins.mem_joints {c : Chain} {t : Token} {join : Expr → Expr → Expr} (h : Joins c t join) :
    t.kind ∈ expression.joints := by
  cases h with
  | infixed h | plus h | minus h | multiply h | divide h | modulus h =>
    rw [h]
    decide

/-- Where an operand is due, any phrase can stand; behind it a joint is due, inside the same
parentheses. -/
theorem Derives.run {level : Level} {ts : List Token} {e : Expr} (h : Derives level ts e)
    (opened : List Opening) (crossed : Bool) :
    Place.run ⟨.operand, opened, crossed⟩ ts = some ⟨.joint, opened, crossed⟩ := by
  induction h generalizing opened with
  | operand _ ih | base _ ih | primary _ ih => exact ih opened
  | chain _ ht _ ihl ihr =>
    simp [ihl, ihr, step_joint _ _ ht.mem_joints]
  | @power _ _ _ _ t _ ht _ ihl ihr =>
    have hjoint : t.kind ∈ expression.joints := by rw [ht]; decide
    simp [ihl, ihr, step_joint _ _ hjoint]
  | negateGroup ht _ ih | negate ht _ _ ih => simp [step_minus _ _ ht, ih]
  | number ht => simp [step_single _ _ (.inl (Token.kind_of_number? ht))]
  | var ht => simp [step_single _ _ (.inr ht)]
  | call hf ho _ hc ih =>
    simp [step_name _ _ hf, step_call _ _ _ ho, ih, step_close _ _ _ hc]
  | call2 hf ho _ hm _ hc ihl ihr =>
    simp [step_name _ _ hf, step_call _ _ _ ho, ihl, step_comma _ _ hm, ihr, step_close _ _ _ hc]
  | group ho _ hc ih => simp [step_group _ _ ho, ih, step_close _ _ _ hc]

theorem DerivesEquation.run {ts : List Token} {e : Equation} (h : DerivesEquation ts e) :
    start.run ts = some finish := by
  cases h with
  | sides hl ht hr => simp [start, hl.run, step_equals ht, hr.run, finish]

/-- What a reader takes leads over places as a phrase does. -/
theorem run_of_gives {level : Level} {ts : List Token} {e : Expr} {rest : List Token}
    (h : (read level ts).Gives e rest) :
    ∃ us, ts = us ++ rest ∧ ∀ opened crossed,
      Place.run ⟨.operand, opened, crossed⟩ us = some ⟨.joint, opened, crossed⟩ := by
  obtain ⟨us, hts, hus⟩ := derives_of_gives level ts h
  exact ⟨us, hts, hus.run⟩

/-! ## Readers that fail -/

/-- The first of these tokens has no step, or there is none and this is not the end of an
equation. -/
structure Place.Refuses (p : Place) (rest : List Token) : Prop where
  next : ∀ t ∈ rest.head?, p.step t = none
  unfinished : rest = [] → p ≠ finish

/-- The tokens lead to a place that refuses the rest, and the fault is the one of that place. -/
def Place.Halts (p : Place) (ts : List Token) (fault : ParseFault) (rest : List Token) : Prop :=
  ∃ us q, ts = us ++ rest ∧ p.run us = some q ∧ q.Refuses rest ∧ q.fault rest.head? = fault

section Halts

variable {p q : Place} {us ts rest : List Token} {fault : ParseFault}

theorem Place.Refuses.halts (h : p.Refuses ts) (hfault : p.fault ts.head? = fault) :
    p.Halts ts fault ts :=
  ⟨[], p, rfl, rfl, h, hfault⟩

theorem Place.Halts.behind (h : q.Halts ts fault rest) (hrun : p.run us = some q) :
    p.Halts (us ++ ts) fault rest := by
  obtain ⟨vs, r, hts, hvs, hrefuses, hfault⟩ := h
  refine ⟨us ++ vs, r, by rw [hts, List.append_assoc], ?_, hrefuses, hfault⟩
  rw [run_append, hrun, Option.bind_some, hvs]

theorem Place.Halts.cons {t : Token} (h : q.Halts ts fault rest) (hstep : p.step t = some q) :
    p.Halts (t :: ts) fault rest := by
  have hrun : p.run [t] = some q := by rw [run_cons, hstep]; rfl
  exact h.behind hrun

/-- An expression in parentheses that are not closed behind it. -/
theorem refuses_unclosed {o : Opening} {opened : List Opening} {crossed : Bool}
    (hstops : Stops expression rest) (hcomma : o = .argument → Lacks .comma rest)
    (hclose : Lacks .rightParenthesis rest) :
    Place.Refuses ⟨.joint, o :: opened, crossed⟩ rest := by
  refine ⟨fun t ht => ?_, fun _ => by simp [finish]⟩
  cases o with
  | argument => exact step_argument_eq_none (hstops t ht) (hclose t ht) (hcomma rfl t ht)
  | last => exact step_last_eq_none (hstops t ht) (hclose t ht)

theorem halts_unclosed {e : Expr} {o : Opening} {opened : List Opening} {crossed : Bool}
    (h : (read expression ts).Gives e rest) (hcomma : o = .argument → Lacks .comma rest)
    (hclose : Lacks .rightParenthesis rest)
    (hfault : fault = .expected TokenKind.rightParenthesis.name rest.head?) :
    Place.Halts ⟨.operand, o :: opened, crossed⟩ ts fault rest := by
  obtain ⟨us, hts, hrun⟩ := run_of_gives h
  subst hts
  have hrefuses : Refuses ⟨.joint, o :: opened, crossed⟩ rest :=
    refuses_unclosed (stops_of_gives expression _ h) hcomma hclose
  exact (hrefuses.halts hfault.symm).behind (hrun _ _)

end Halts

/-- A reader that fails has come to a place that refuses the rest. A minus is none of the business
of the reader of operands, which is not called in front of one. -/
theorem halts_of_stalls (level : Level) (ts : List Token) {fault : ParseFault} {rest : List Token}
    (h : (read level ts).Stalls fault rest) (hminus : level = .primary → Lacks .minus ts)
    (opened : List Opening) (crossed : Bool) :
    Place.Halts ⟨.operand, opened, crossed⟩ ts fault rest := by
  -- The induction is the readers' own. The arguments of a call start inside its parentheses, and a
  -- chain is extended from behind an operand.
  revert fault rest h opened crossed
  refine (read.mutual_induct
    (fun level ts => (level = .primary → Lacks .minus ts) →
      ∀ {fault rest}, (read level ts).Stalls fault rest →
      ∀ opened crossed, Place.Halts ⟨.operand, opened, crossed⟩ ts fault rest)
    (fun name ts => ∀ {fault rest}, (arguments name ts).Stalls fault rest →
      ∀ opened crossed, Place.Halts ⟨.operand, .argument :: opened, crossed⟩ ts fault rest)
    (fun c l ts => ∀ {fault rest}, (extend c l ts).Stalls fault rest →
      ∀ opened crossed, Place.Halts ⟨.joint, opened, crossed⟩ ts fault rest)
    ?chain ?power ?minus ?unary ?nil ?number ?var ?call ?uncalled ?group ?other ?arguments
    ?extendNil ?extendEnd ?extendJoint).1 level ts hminus
  case chain =>
    intro ts c _ ihl ihr _ fault rest h opened crossed
    obtain h | ⟨l, mid, hl, hr⟩ := (stalls_read_chain ..).mp h
    · exact ihl (absurd · c.operand_ne_primary) h opened crossed
    · obtain ⟨us, hts, hrun⟩ := run_of_gives hl
      have hhalts := (ihr l mid hl.length_lt hr opened crossed).behind (hrun opened crossed)
      rwa [← hts] at hhalts
  case power =>
    intro ts ihl ihr _ fault rest h opened crossed
    obtain h | ⟨l, ⟨kind, text, position⟩, after, hl, hk, hr⟩ := stalls_read_power h
    · exact ihl (by simp) h opened crossed
    · subst hk
      obtain ⟨us, hts, hrun⟩ := run_of_gives hl
      have hexponent := ihr text position trivial after hl.length_lt (by simp) hr opened crossed
      have hjoint : Place.step ⟨.joint, opened, crossed⟩ ⟨.power, text, position, trivial⟩ =
          some ⟨.operand, opened, crossed⟩ :=
        step_joint opened crossed (by simp [expression, Level.joints])
      have hhalts := (hexponent.cons hjoint).behind (hrun opened crossed)
      rwa [← hts] at hhalts
  case minus =>
    intro text position _ after ih _ fault rest h opened crossed
    exact (ih (by simp) ((stalls_read_minus rfl _).mp h) opened crossed).cons (step_minus _ _ rfl)
  case unary =>
    intro ts hne ih _ fault rest h
    have hminus : Lacks .minus ts := lacks_of_ne hne
    rw [read_unary hminus] at h
    exact ih (fun _ => hminus) h
  case nil =>
    intro _ fault rest h opened crossed
    obtain ⟨hfault, hrest⟩ := stalls_read_nil.mp h
    subst hrest
    exact Refuses.halts ⟨by simp, fun _ => by simp [finish]⟩ hfault
  case number =>
    intro text position _ ts _ fault rest h
    exact absurd h (not_stalls_read_operand (.inl rfl) ts)
  case var =>
    intro name position _ ts _ fault rest h
    exact absurd h (not_stalls_read_operand (.inr rfl) ts)
  case call =>
    intro name position _ text position' _ ts ih _ fault rest h opened crossed
    have hinside := ih ((stalls_read_call rfl rfl ts).mp h) opened crossed
    exact (hinside.cons (step_call _ _ _ rfl)).cons (step_name _ _ rfl)
  case uncalled =>
    intro name position admitted ts hne _ fault rest h opened crossed
    have hlacks : Lacks .leftParenthesis ts := lacks_of_ne hne
    obtain ⟨hfault, hrest⟩ := (stalls_read_uncalled rfl hlacks).mp h
    subst hrest
    have hrefuses :
        Refuses ⟨.parenthesis ⟨.identifier, name, position, admitted⟩, opened, crossed⟩ ts :=
      ⟨fun t ht => step_parenthesis_eq_none (hlacks t ht), fun _ => by simp [finish]⟩
    exact (hrefuses.halts hfault).cons (step_name _ _ rfl)
  case group =>
    intro text position _ after ih _ fault rest h opened crossed
    refine Halts.cons ?_ (step_group opened crossed rfl)
    obtain h | ⟨inner, hinner, hclose, hfault⟩ := (stalls_read_group rfl after).mp h
    · exact ih (absurd · expression_ne_primary) h _ _
    · exact halts_unclosed hinner (by simp) hclose hfault
  case other =>
    intro t ts hnumber hvar _ hname hgroup hminus fault rest h opened crossed
    have hother : t.kind ∉ [.number, .var, .identifier, .leftParenthesis] := by
      obtain ⟨kind, text, position, admitted⟩ := t
      simp only [List.mem_cons, List.not_mem_nil, or_false]
      rintro (hk | hk | hk | hk) <;> subst hk
      · exact hnumber text position admitted rfl
      · exact hvar text position admitted rfl
      · exact hname text position admitted rfl
      · exact hgroup text position admitted rfl
    obtain ⟨hfault, hrest⟩ := (stalls_read_other hother ts).mp h
    subst hrest
    refine Refuses.halts ⟨fun u hu => ?_, fun hnil => by cases hnil⟩ hfault
    cases hu
    exact step_operand_eq_none (hminus rfl t rfl) hother
  case arguments =>
    intro name ts ihf ihs fault rest h opened crossed
    obtain h | ⟨first, hfirst, hcomma, hclose, hfault⟩ |
      ⟨first, ⟨kind, text, position⟩, after, hfirst, hk, h⟩ := stalls_arguments h
    · exact ihf (absurd · expression_ne_primary) h _ _
    · exact halts_unclosed hfirst (fun _ => hcomma) hclose hfault
    · subst hk
      obtain ⟨us, hts, hrun⟩ := run_of_gives hfirst
      rw [hts]
      refine Halts.behind (Halts.cons ?_ (step_comma opened crossed rfl)) (hrun _ _)
      obtain h | ⟨second, hsecond, hclose, hfault⟩ := h
      · exact ihs text position trivial after hfirst.length_lt (absurd · expression_ne_primary) h _ _
      · exact halts_unclosed hsecond (by simp) hclose hfault
  case extendNil =>
    intro c l fault rest h
    exact absurd h (not_stalls_extend_nil c l)
  case extendEnd =>
    intro c l t ts hj fault rest h
    exact absurd h (not_stalls_extend_end hj l ts)
  case extendJoint =>
    intro c l t ts join hj ihr ihe fault rest h opened crossed
    have hjoint := step_joint opened crossed ((joint?_eq_some_iff ..).mp hj).mem_joints
    refine Halts.cons ?_ hjoint
    obtain h | ⟨r, mid, hr, he⟩ := (stalls_extend_joint hj ..).mp h
    · exact ihr (absurd · c.operand_ne_primary) h opened crossed
    · obtain ⟨us, hts, hrun⟩ := run_of_gives hr
      rw [hts]
      exact (ihe r mid hr.length_lt he opened crossed).behind (hrun opened crossed)

/-! ## Equations -/

theorem stalls_equation {ts : List Token} {fault : ParseFault} {rest : List Token}
    (h : (equation ts).Stalls fault rest) :
    (read expression ts).Stalls fault rest ∨
      (∃ l, (read expression ts).Gives l rest ∧ Lacks .equals rest ∧
        fault = .expected TokenKind.equals.name rest.head?) ∨
      ∃ l t after, (read expression ts).Gives l (t :: after) ∧ t.kind = .equals ∧
        ((read expression after).Stalls fault rest ∨
          ∃ r u, (read expression after).Gives r rest ∧ rest.head? = some u ∧
            fault = .unexpectedToken u) := by
  rw [equation, Reading.stalls_andThen] at h
  refine h.imp_right ?_
  rintro ⟨l, mid, hl, h⟩
  rw [Reading.stalls_within, Reading.stalls_andThen] at h
  obtain h | ⟨t, after, hequals, h⟩ := h
  · obtain ⟨hlacks, hfault, hrest⟩ := (stalls_expect ..).mp h
    subst hrest
    exact .inl ⟨l, hl, hlacks, hfault⟩
  · obtain ⟨hmid, ht⟩ := (gives_expect ..).mp hequals
    subst hmid
    refine .inr ⟨l, t, after, hl, ht, ?_⟩
    rw [Reading.stalls_within, Reading.stalls_andThen] at h
    refine h.imp_right ?_
    rintro ⟨r, left, hr, h⟩
    cases left with
    | nil => exact absurd h (Reading.not_stalls_read _ _ _ _ _)
    | cons u us =>
      obtain ⟨hfault, hrest⟩ := (Reading.stalls_stuck ..).mp h
      subst hfault hrest
      exact ⟨r, u, hr, rfl, rfl⟩

/-- Where the reader of equations fails, the tokens in front lead to a place that refuses the
rest. -/
theorem halts_of_stalls_equation {ts : List Token} {fault : ParseFault} {rest : List Token}
    (h : (equation ts).Stalls fault rest) : start.Halts ts fault rest := by
  obtain h | ⟨l, hl, hlacks, hfault⟩ | ⟨l, t, after, hl, ht, h⟩ := stalls_equation h
  · exact halts_of_stalls _ _ h (absurd · expression_ne_primary) [] false
  · obtain ⟨us, hts, hrun⟩ := run_of_gives hl
    have hrefuses : Refuses ⟨.joint, [], false⟩ rest :=
      ⟨fun t ht => step_outside_eq_none (stops_of_gives _ _ hl t ht) fun _ => hlacks t ht,
        fun _ => by simp [finish]⟩
    rw [hts]
    exact (hrefuses.halts hfault.symm).behind (hrun [] false)
  · obtain ⟨us, hts, hrun⟩ := run_of_gives hl
    rw [hts]
    refine Halts.behind (Halts.cons ?_ (step_equals ht)) (hrun [] false)
    obtain h | ⟨r, u, hr, hnext, hfault⟩ := h
    · exact halts_of_stalls _ _ h (absurd · expression_ne_primary) [] true
    · obtain ⟨vs, hafter, hrun⟩ := run_of_gives hr
      have hrefuses : Refuses ⟨.joint, [], true⟩ rest :=
        ⟨fun t ht => step_outside_eq_none (stops_of_gives _ _ hr t ht) (by simp),
          fun hnil => by rw [hnil] at hnext; cases hnext⟩
      rw [hafter]
      refine (hrefuses.halts ?_).behind (hrun [] true)
      rw [hnext, hfault]
      rfl

/-- What a cursor in front of all tokens rejects, unless there are none. -/
theorem halts_of_equation_start {ts : List Token} {fault : ParseFault} (hne : ts ≠ [])
    (h : (Cursor.start ts).equation.1 = .error fault) : ∃ rest, start.Halts ts fault rest := by
  have hempty : ¬(Cursor.start ts).tokens.isEmpty = true := by simpa [Cursor.start] using hne
  rw [Cursor.equation, if_neg hempty] at h
  change (Cursor.advance _ (equation ts)).1 = _ at h
  cases hr : equation ts with
  | read e rest shorter =>
    rw [hr] at h
    cases h
  | stuck fault' rest within =>
    rw [hr] at h
    cases h
    exact ⟨rest, halts_of_stalls_equation ⟨within, hr⟩⟩

/-- A run that is refused somewhere does not lead to the end of an equation. -/
theorem Place.Halts.run_ne_finish {p : Place} {ts rest : List Token} {fault : ParseFault}
    (h : p.Halts ts fault rest) : p.run ts ≠ some finish := by
  obtain ⟨us, q, hts, hrun, hrefuses, -⟩ := h
  rw [hts, run_append, hrun, Option.bind_some]
  intro hfinish
  cases rest with
  | nil => exact hrefuses.unfinished rfl (Option.some.inj hfinish)
  | cons t rest =>
    rw [run_cons, hrefuses.next t rfl] at hfinish
    cases hfinish

/-- Exactly the equations lead from the start to the end. -/
theorem run_eq_finish (ts : List Token) :
    start.run ts = some finish ↔ ∃ e, DerivesEquation ts e := by
  constructor
  · intro h
    obtain ⟨e, rest, hgives⟩ | ⟨fault, rest, hstalls⟩ := (equation ts).gives_or_stalls
    · exact ⟨e, ((gives_equation ts e rest).mp hgives).2⟩
    · exact absurd h (halts_of_stalls_equation hstalls).run_ne_finish
  · rintro ⟨e, he⟩
    exact he.run

/-! ## Beginnings of equations -/

/-- The tokens can be completed to an equation. -/
def BeginsEquation (ts : List Token) : Prop :=
  ∃ more e, DerivesEquation (ts ++ more) e

/-- Behind an operand, the open parentheses can be closed and the equation ended. -/
theorem exists_run_joint (opened : List Opening) (crossed : Bool) :
    ∃ ts, Place.run ⟨.joint, opened, crossed⟩ ts = some finish := by
  induction opened with
  | nil =>
    cases crossed with
    | true => exact ⟨[], rfl⟩
    | false => exact ⟨[⟨.equals, "=", 0, trivial⟩, ⟨.var, "x", 0, trivial⟩], rfl⟩
  | cons o opened ih =>
    obtain ⟨ts, hts⟩ := ih
    refine ⟨⟨.rightParenthesis, ")", 0, trivial⟩ :: ts, ?_⟩
    rw [run_cons, step_close opened crossed o rfl]
    exact hts

/-- From every place some tokens lead to the end of an equation. -/
theorem Place.exists_run (p : Place) : ∃ ts, p.run ts = some finish := by
  obtain ⟨due, opened, crossed⟩ := p
  have hoperand (opened : List Opening) :
      ∃ ts, Place.run ⟨.operand, opened, crossed⟩ ts = some finish := by
    obtain ⟨ts, hts⟩ := exists_run_joint opened crossed
    refine ⟨⟨.var, "x", 0, trivial⟩ :: ts, ?_⟩
    rw [run_cons, step_single opened crossed (.inr rfl)]
    exact hts
  cases due with
  | joint => exact exists_run_joint opened crossed
  | operand => exact hoperand opened
  | parenthesis name =>
    obtain ⟨ts, hts⟩ := hoperand (.argument :: opened)
    refine ⟨⟨.leftParenthesis, "(", 0, trivial⟩ :: ts, ?_⟩
    rw [run_cons, step_call opened crossed name rfl]
    exact hts

/-- The tokens that lead anywhere are the beginnings of equations. -/
theorem beginsEquation_iff (ts : List Token) : BeginsEquation ts ↔ ∃ p, start.run ts = some p := by
  constructor
  · rintro ⟨more, e, he⟩
    have hrun := he.run
    rw [run_append, Option.bind_eq_some_iff] at hrun
    obtain ⟨p, hp, -⟩ := hrun
    exact ⟨p, hp⟩
  · rintro ⟨p, hp⟩
    obtain ⟨more, hmore⟩ := p.exists_run
    refine ⟨more, (run_eq_finish _).mp ?_⟩
    rw [run_append, hp]
    exact hmore

/-- What stands in front in a beginning of an equation begins the equation too. -/
theorem BeginsEquation.take {ts : List Token} (h : BeginsEquation ts) (k : Nat) :
    BeginsEquation (ts.take k) := by
  obtain ⟨more, e, he⟩ := h
  refine ⟨ts.drop k ++ more, e, ?_⟩
  rwa [← List.append_assoc, List.take_append_drop]

end Grammar
end Isotherm
