import Isotherm.Proofs.Formula.Acceptance

/-!
# Where the readers fail

`Reading.Stalls` says that a reading fails, with which fault and what it leaves. For each reader
there is one statement of where it fails in terms of the readers it goes through. A reader that
succeeds leaves nothing that goes on with its phrase.
-/

namespace Isotherm

namespace Reading

variable {α β : Type} {n m : Nat}

/-- The reading fails with `fault` and leaves `rest`. -/
def Stalls (r : Reading α n) (fault : ParseFault) (rest : List Token) : Prop :=
  ∃ within, r = .stuck fault rest within

theorem gives_or_stalls (r : Reading α n) :
    (∃ v rest, r.Gives v rest) ∨ ∃ fault rest, r.Stalls fault rest := by
  cases r with
  | read v rest shorter => exact .inl ⟨v, rest, shorter, rfl⟩
  | stuck fault rest within => exact .inr ⟨fault, rest, within, rfl⟩

@[simp] theorem stalls_stuck (fault fault' : ParseFault) (rest rest' : List Token)
    (h : rest.length ≤ n) :
    (stuck fault rest h : Reading α n).Stalls fault' rest' ↔ fault = fault' ∧ rest = rest' := by
  constructor
  · rintro ⟨_, h'⟩
    cases h'
    exact ⟨rfl, rfl⟩
  · rintro ⟨hfault, hrest⟩
    subst hfault hrest
    exact ⟨h, rfl⟩

@[simp] theorem not_stalls_read (v : α) (fault : ParseFault) (rest rest' : List Token)
    (h : rest.length < n) : ¬(read v rest h).Stalls fault rest' := by
  rintro ⟨_, h'⟩
  cases h'

@[simp] theorem stalls_weaken (h : n ≤ m) (r : Reading α n) (fault : ParseFault)
    (rest : List Token) : (r.weaken h).Stalls fault rest ↔ r.Stalls fault rest := by
  cases r <;> simp [weaken]

@[simp] theorem stalls_within (h : n < m) (r : Reading α n) (fault : ParseFault)
    (rest : List Token) : (r.within h).Stalls fault rest ↔ r.Stalls fault rest :=
  stalls_weaken _ r fault rest

/-- Readings in a row: the first fails, or the second does where the first one ended. -/
@[simp] theorem stalls_andThen (r : Reading α n)
    (next : α → (rest : List Token) → rest.length < n → Reading β n) (fault : ParseFault)
    (rest : List Token) :
    (r.andThen next).Stalls fault rest ↔ r.Stalls fault rest ∨
      ∃ v mid, ∃ h : r.Gives v mid, (next v mid h.length_lt).Stalls fault rest := by
  cases r with
  | read v mid shorter =>
    simp only [andThen, not_stalls_read, gives_read, false_or]
    constructor
    · exact fun h => ⟨v, mid, ⟨rfl, rfl⟩, h⟩
    · rintro ⟨_, _, ⟨hv, hmid⟩, h⟩
      subst hv hmid
      exact h
  | stuck fault' mid within => simp [andThen]

end Reading

namespace Grammar

variable {fault : ParseFault} {rest : List Token}

/-! ## One statement for each reader -/

/-- The next token, if there is one, is not of this kind. -/
def Lacks (kind : TokenKind) (ts : List Token) : Prop :=
  ∀ t ∈ ts.head?, t.kind ≠ kind

theorem lacks_of_ne {kind : TokenKind} {ts : List Token}
    (h : ∀ text position admitted after, ts ≠ ⟨kind, text, position, admitted⟩ :: after) :
    Lacks kind ts := by
  rintro ⟨kind', text, position, admitted⟩ ht hk
  obtain ⟨after, hafter⟩ := List.head?_eq_some_iff.mp ht
  subst hk
  exact h text position admitted after hafter

theorem stalls_expect (kind : TokenKind) (ts : List Token) :
    (expect kind ts).Stalls fault rest ↔
      Lacks kind rest ∧ fault = .expected kind.name rest.head? ∧ ts = rest := by
  unfold expect
  split
  · rw [Reading.stalls_stuck]
    constructor
    · rintro ⟨hfault, hrest⟩
      subst hfault hrest
      simp [Lacks]
    · rintro ⟨_, hfault, hrest⟩
      subst hrest
      exact ⟨hfault.symm, rfl⟩
  next t ts =>
    split
    next hk =>
      refine iff_of_false (Reading.not_stalls_read _ _ _ _ _) ?_
      rintro ⟨hlacks, _, hrest⟩
      subst hrest
      exact hlacks t rfl hk
    next hk =>
      rw [Reading.stalls_stuck]
      constructor
      · rintro ⟨hfault, hrest⟩
        subst hfault hrest
        simpa [Lacks] using hk
      · rintro ⟨_, hfault, hrest⟩
        subst hrest
        exact ⟨hfault.symm, rfl⟩

/-- A token that has to stand behind what was read, and ends it. -/
theorem stalls_expect_andThen {α : Type} (kind : TokenKind) (ts : List Token) (v : α) :
    ((expect kind ts).andThen fun _ rest shorter => Reading.read v rest shorter).Stalls
      fault rest ↔ Lacks kind rest ∧ fault = .expected kind.name rest.head? ∧ ts = rest := by
  simp only [Reading.stalls_andThen, Reading.not_stalls_read, exists_const, or_false,
    exists_false, stalls_expect]

theorem stalls_read_chain (c : Chain) (ts : List Token) :
    (read (.chain c) ts).Stalls fault rest ↔ (read c.operand ts).Stalls fault rest ∨
      ∃ l mid, (read c.operand ts).Gives l mid ∧ (extend c l mid).Stalls fault rest := by
  rw [read]
  simp only [Reading.stalls_andThen, Reading.stalls_weaken, exists_prop]

theorem not_stalls_extend_nil (c : Chain) (l : Expr) : ¬(extend c l []).Stalls fault rest := by
  rw [extend]
  exact Reading.not_stalls_read _ _ _ _ _

theorem not_stalls_extend_end {c : Chain} {t : Token} (h : c.joint? t = none) (l : Expr)
    (ts : List Token) : ¬(extend c l (t :: ts)).Stalls fault rest := by
  rw [extend]
  split
  next => exact Reading.not_stalls_read _ _ _ _ _
  next h' => rw [h] at h'; cases h'

theorem stalls_extend_joint {c : Chain} {t : Token} {join : Expr → Expr → Expr}
    (h : c.joint? t = some join) (l : Expr) (ts : List Token) :
    (extend c l (t :: ts)).Stalls fault rest ↔ (read c.operand ts).Stalls fault rest ∨
      ∃ r mid, (read c.operand ts).Gives r mid ∧
        (extend c (join l r) mid).Stalls fault rest := by
  rw [extend]
  split
  next h' => rw [h] at h'; cases h'
  next join' h' =>
    obtain rfl : join = join' := by simpa [h] using h'
    simp only [Reading.stalls_weaken, Reading.stalls_andThen, exists_prop]

/-- The base fails, or the exponent behind a power sign does. -/
theorem stalls_read_power {ts : List Token} (h : (read .power ts).Stalls fault rest) :
    (read .unary ts).Stalls fault rest ∨
      ∃ l t after, (read .unary ts).Gives l (t :: after) ∧ t.kind = .power ∧
        (read .power after).Stalls fault rest := by
  rw [read, Reading.stalls_andThen] at h
  refine h.imp_right ?_
  rintro ⟨l, mid, hl, h⟩
  split at h
  next text position after _ =>
    simp only [Reading.stalls_weaken, Reading.stalls_andThen, Reading.not_stalls_read,
      exists_false, or_false] at h
    exact ⟨l, _, after, hl, rfl, h⟩
  next => exact absurd h (Reading.not_stalls_read _ _ _ _ _)

theorem stalls_read_minus {t : Token} (ht : t.kind = .minus) (ts : List Token) :
    (read .unary (t :: ts)).Stalls fault rest ↔ (read .unary ts).Stalls fault rest := by
  obtain ⟨kind, text, position⟩ := t
  subst ht
  rw [read]
  simp only [Reading.stalls_weaken, Reading.stalls_andThen, Reading.not_stalls_read,
    exists_false, or_false]

theorem stalls_read_nil :
    (read .primary []).Stalls fault rest ↔ .unexpectedEnd = fault ∧ [] = rest := by
  rw [read, Reading.stalls_stuck]

theorem not_stalls_read_operand {t : Token} (ht : t.kind = .number ∨ t.kind = .var)
    (ts : List Token) : ¬(read .primary (t :: ts)).Stalls fault rest := by
  obtain ⟨kind, text, position⟩ := t
  obtain rfl | rfl := ht
  all_goals
    rw [read]
    exact Reading.not_stalls_read _ _ _ _ _

theorem stalls_read_call {f o : Token} (hf : f.kind = .identifier)
    (ho : o.kind = .leftParenthesis) (ts : List Token) :
    (read .primary (f :: o :: ts)).Stalls fault rest ↔
      (arguments f.text ts).Stalls fault rest := by
  obtain ⟨kind, text, position⟩ := f
  obtain ⟨kind', text', position'⟩ := o
  subst hf ho
  rw [read, Reading.stalls_weaken]

theorem stalls_read_uncalled {f : Token} (hf : f.kind = .identifier) {ts : List Token}
    (hts : Lacks .leftParenthesis ts) :
    (read .primary (f :: ts)).Stalls fault rest ↔ .uncalled f ts.head? = fault ∧ ts = rest := by
  obtain ⟨kind, text, position⟩ := f
  subst hf
  rw [read, Reading.stalls_stuck]
  intro text' position' admitted after hafter
  subst hafter
  exact hts _ rfl rfl

theorem stalls_read_group {o : Token} (ho : o.kind = .leftParenthesis) (ts : List Token) :
    (read .primary (o :: ts)).Stalls fault rest ↔ (read expression ts).Stalls fault rest ∨
      ∃ inner, (read expression ts).Gives inner rest ∧ Lacks .rightParenthesis rest ∧
        fault = .expected TokenKind.rightParenthesis.name rest.head? := by
  obtain ⟨kind, text, position⟩ := o
  subst ho
  rw [read]
  simp only [Reading.stalls_weaken, Reading.stalls_andThen (read expression ts),
    stalls_expect_andThen, exists_prop]
  refine or_congr_right (exists_congr fun inner => ?_)
  constructor
  · rintro ⟨mid, h, hlacks, hfault, hrest⟩
    subst hrest
    exact ⟨h, hlacks, hfault⟩
  · rintro ⟨h, hlacks, hfault⟩
    exact ⟨rest, h, hlacks, hfault, rfl⟩

/-- No operand starts with such a token. -/
theorem stalls_read_other {t : Token}
    (ht : t.kind ∉ [.number, .var, .identifier, .leftParenthesis]) (ts : List Token) :
    (read .primary (t :: ts)).Stalls fault rest ↔
      .unexpectedToken t = fault ∧ t :: ts = rest := by
  obtain ⟨kind, text, position⟩ := t
  rw [read, Reading.stalls_stuck]
  all_goals
    intros
    simp_all

/-- An argument fails, or a comma or the closing parenthesis is missing behind one. -/
theorem stalls_arguments {name : String} {ts : List Token}
    (h : (arguments name ts).Stalls fault rest) :
    (read expression ts).Stalls fault rest ∨
      (∃ first, (read expression ts).Gives first rest ∧ Lacks .comma rest ∧
        Lacks .rightParenthesis rest ∧
        fault = .expected TokenKind.rightParenthesis.name rest.head?) ∨
      ∃ first m after, (read expression ts).Gives first (m :: after) ∧ m.kind = .comma ∧
        ((read expression after).Stalls fault rest ∨
          ∃ second, (read expression after).Gives second rest ∧ Lacks .rightParenthesis rest ∧
            fault = .expected TokenKind.rightParenthesis.name rest.head?) := by
  rw [arguments, Reading.stalls_andThen] at h
  refine h.imp_right ?_
  rintro ⟨first, mid, hfirst, h⟩
  split at h
  next text position after _ =>
    refine .inr ⟨first, _, after, hfirst, rfl, ?_⟩
    simp only [Reading.stalls_weaken, Reading.stalls_andThen (read expression after),
      stalls_expect_andThen, exists_prop] at h
    refine h.imp_right ?_
    rintro ⟨second, mid, hsecond, hlacks, hfault, hrest⟩
    subst hrest
    exact ⟨second, hsecond, hlacks, hfault⟩
  next hne =>
    rw [Reading.stalls_weaken, stalls_expect_andThen] at h
    obtain ⟨hlacks, hfault, hrest⟩ := h
    subst hrest
    have hcomma : Lacks .comma mid := lacks_of_ne fun text position admitted after hmid => by
      subst hmid
      exact hne _ _ _ _ _ rfl HEq.rfl
    exact .inl ⟨first, hfirst, hcomma, hlacks, hfault⟩

/-! ## What stands behind a phrase -/

theorem Stops.of_operand {c : Chain} {t : Token} {ts : List Token}
    (h : Stops c.operand (t :: ts)) (hj : c.joint? t = none) : Stops (.chain c) (t :: ts) := by
  obtain ⟨kind, text, position⟩ := t
  rw [stops_cons] at h ⊢
  cases c <;> cases kind <;> simp_all [Chain.joint?, Chain.operand, Level.joints]

/-- A reader reads on as long as the tokens go on with its phrase. -/
theorem stops_of_gives (level : Level) (ts : List Token) {e : Expr} {rest : List Token}
    (h : (read level ts).Gives e rest) : Stops level rest := by
  -- Before a chain is extended its last operand has ended, so no joint of an inner level is next.
  revert h e rest
  refine (read.mutual_induct
    (fun level ts => ∀ {e rest}, (read level ts).Gives e rest → Stops level rest)
    (fun _ _ => True)
    (fun c l ts => Stops c.operand ts →
      ∀ {e rest}, (extend c l ts).Gives e rest → Stops (.chain c) rest)
    ?chain ?power ?minus ?unary ?nil ?number ?var ?call ?uncalled ?group ?other ?arguments
    ?extendNil ?extendEnd ?extendJoint).1 level ts
  case chain =>
    intro ts c _ ihl ihr e rest h
    obtain ⟨l, mid, hl, hr⟩ := (gives_read_chain ..).mp h
    exact ihr l mid hl.length_lt (ihl hl) hr
  case power =>
    intro ts ihl ihr e rest h
    obtain ⟨l, mid, hl, hr⟩ := (gives_read_power ..).mp h
    obtain ⟨hne, -, hrest⟩ | ⟨⟨kind, text, position⟩, after, r, hmid, hk, hr, -⟩ := hr
    · subst hrest
      simpa [Stops, Level.joints] using hne
    · subst hk hmid
      exact ihr text position trivial after hl.length_lt hr
  case extendNil =>
    intro c l _ e rest h
    obtain ⟨-, hrest⟩ := (gives_extend_nil ..).mp h
    subst hrest
    exact stops_nil _
  case extendEnd =>
    intro c l t ts hj hstops e rest h
    obtain ⟨-, hrest⟩ := (gives_extend_end hj ..).mp h
    subst hrest
    exact hstops.of_operand hj
  case extendJoint =>
    intro c l t ts join hj ihr ihe _ e rest h
    obtain ⟨r, mid, hr, he⟩ := (gives_extend_joint hj ..).mp h
    exact ihe r mid hr.length_lt (ihr hr) he
  -- Nothing goes on with an operand.
  all_goals
    intros
    simp [Stops, Level.joints]

end Grammar
end Isotherm
