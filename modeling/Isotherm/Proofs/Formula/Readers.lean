import Isotherm.Proofs.Formula.Derivation

/-!
# What the readers take

`Reading.Gives` says that a reading succeeds, with which value and what it leaves. For each reader
there is one statement of what it gives in terms of the readers it goes through, and nothing else
about the readers has to be unfolded.
-/

namespace Isotherm

namespace Reading

variable {α β : Type} {n m : Nat}

/-- The reading succeeds with `value` and leaves `rest`. -/
def Gives (r : Reading α n) (value : α) (rest : List Token) : Prop :=
  ∃ shorter, r = .read value rest shorter

theorem Gives.length_lt {r : Reading α n} {v : α} {rest : List Token} (h : r.Gives v rest) :
    rest.length < n := h.1

theorem Gives.unique {r : Reading α n} {v w : α} {rest rest' : List Token} (h : r.Gives v rest)
    (h' : r.Gives w rest') : v = w ∧ rest = rest' := by
  obtain ⟨_, rfl⟩ := h
  obtain ⟨_, h'⟩ := h'
  cases h'
  exact ⟨rfl, rfl⟩

@[simp] theorem gives_read (v w : α) (rest rest' : List Token) (h : rest.length < n) :
    (read v rest h).Gives w rest' ↔ v = w ∧ rest = rest' := by
  constructor
  · rintro ⟨_, h'⟩
    cases h'
    exact ⟨rfl, rfl⟩
  · rintro ⟨rfl, rfl⟩
    exact ⟨h, rfl⟩

@[simp] theorem not_gives_stuck (fault : ParseFault) (rest rest' : List Token) (v : α)
    (h : rest.length ≤ n) : ¬(stuck fault rest h : Reading α n).Gives v rest' := by
  rintro ⟨_, h'⟩
  cases h'

@[simp] theorem gives_weaken (h : n ≤ m) (r : Reading α n) (v : α) (rest : List Token) :
    (r.weaken h).Gives v rest ↔ r.Gives v rest := by
  cases r <;> simp [weaken]

@[simp] theorem gives_within (h : n < m) (r : Reading α n) (v : α) (rest : List Token) :
    (r.within h).Gives v rest ↔ r.Gives v rest :=
  gives_weaken _ r v rest

/-- Readings in a row: the second starts where the first one ended. -/
@[simp] theorem gives_andThen (r : Reading α n)
    (next : α → (rest : List Token) → rest.length < n → Reading β n) (w : β) (rest : List Token) :
    (r.andThen next).Gives w rest ↔
      ∃ v mid, ∃ h : r.Gives v mid, (next v mid h.length_lt).Gives w rest := by
  cases r with
  | read v mid shorter =>
    simp only [andThen, gives_read]
    constructor
    · exact fun h => ⟨v, mid, ⟨rfl, rfl⟩, h⟩
    · rintro ⟨_, _, ⟨rfl, rfl⟩, h⟩
      exact h
  | stuck fault mid within => simp [andThen]

end Reading

namespace Grammar

/-! ## One statement for each reader -/

@[simp] theorem gives_expect (kind : TokenKind) (ts : List Token) (t : Token)
    (rest : List Token) :
    (expect kind ts).Gives t rest ↔ ts = t :: rest ∧ t.kind = kind := by
  unfold expect
  split
  · simp
  next u us =>
    split
    next h =>
      rw [Reading.gives_read, List.cons.injEq]
      constructor
      · rintro ⟨rfl, rfl⟩
        exact ⟨⟨rfl, rfl⟩, h⟩
      · exact And.left
    next h =>
      simp only [Reading.not_gives_stuck, List.cons.injEq, false_iff]
      rintro ⟨⟨rfl, rfl⟩, ht⟩
      exact h ht

theorem gives_read_chain (c : Chain) (ts : List Token) (e : Expr) (rest : List Token) :
    (read (.chain c) ts).Gives e rest ↔
      ∃ l mid, (read c.operand ts).Gives l mid ∧ (extend c l mid).Gives e rest := by
  rw [read]
  simp only [Reading.gives_andThen, Reading.gives_weaken, exists_prop]

theorem gives_extend_nil (c : Chain) (l e : Expr) (rest : List Token) :
    (extend c l []).Gives e rest ↔ l = e ∧ [] = rest := by
  rw [extend, Reading.gives_read]

theorem gives_extend_end {c : Chain} {t : Token} (h : c.joint? t = none) (l e : Expr)
    (ts rest : List Token) :
    (extend c l (t :: ts)).Gives e rest ↔ l = e ∧ t :: ts = rest := by
  rw [extend]
  split
  next => rw [Reading.gives_read]
  next h' => rw [h] at h'; cases h'

theorem gives_extend_joint {c : Chain} {t : Token} {join : Expr → Expr → Expr}
    (h : c.joint? t = some join) (l e : Expr) (ts rest : List Token) :
    (extend c l (t :: ts)).Gives e rest ↔
      ∃ r mid, (read c.operand ts).Gives r mid ∧ (extend c (join l r) mid).Gives e rest := by
  rw [extend]
  split
  next h' => rw [h] at h'; cases h'
  next join' h' =>
    obtain rfl : join = join' := by simpa [h] using h'
    simp only [Reading.gives_andThen, Reading.gives_weaken, exists_prop]

/-- A power sign behind the base has to be followed by an exponent. -/
theorem gives_read_power (ts : List Token) (e : Expr) (rest : List Token) :
    (read .power ts).Gives e rest ↔
      ∃ l mid, (read .unary ts).Gives l mid ∧
        ((∀ t ∈ mid.head?, t.kind ≠ .power) ∧ l = e ∧ mid = rest ∨
          ∃ t after r, mid = t :: after ∧ t.kind = .power ∧ (read .power after).Gives r rest ∧
            Expr.binary l .power r = e) := by
  rw [read]
  simp only [Reading.gives_andThen]
  constructor
  · rintro ⟨l, mid, hl, h⟩
    refine ⟨l, mid, hl, ?_⟩
    split at h
    next text position after _ =>
      simp only [Reading.gives_weaken, Reading.gives_andThen, Reading.gives_read,
        exists_prop] at h
      obtain ⟨r, _, hr, he, rfl⟩ := h
      exact .inr ⟨_, after, r, rfl, rfl, hr, he⟩
    next hne =>
      rw [Reading.gives_read] at h
      refine .inl ⟨?_, h⟩
      rintro ⟨kind, text, position⟩ ht hk
      obtain ⟨after, rfl⟩ := List.head?_eq_some_iff.mp ht
      subst hk
      exact hne _ _ _ _ _ rfl HEq.rfl
  · rintro ⟨l, mid, hl, h⟩
    refine ⟨l, mid, hl, ?_⟩
    rcases h with ⟨hne, h⟩ | ⟨⟨kind, text, position⟩, after, r, rfl, hk, hr, he⟩
    · split
      next => exact absurd rfl (hne _ rfl)
      next => exact (Reading.gives_read ..).mpr h
    · subst hk
      simp only [Reading.gives_weaken, Reading.gives_andThen, Reading.gives_read, exists_prop]
      exact ⟨r, rest, hr, he, rfl⟩

theorem gives_read_minus {t : Token} (ht : t.kind = .minus) (ts : List Token) (e : Expr)
    (rest : List Token) :
    (read .unary (t :: ts)).Gives e rest ↔
      ∃ operand, (read .unary ts).Gives operand rest ∧ negation operand = e := by
  obtain ⟨kind, text, position⟩ := t
  subst ht
  rw [read]
  simp only [Reading.gives_weaken, Reading.gives_andThen, Reading.gives_read, exists_prop]
  constructor
  · rintro ⟨operand, _, h, he, rfl⟩
    exact ⟨operand, h, he⟩
  · rintro ⟨operand, h, he⟩
    exact ⟨operand, rest, h, he, rfl⟩

theorem read_unary {ts : List Token} (h : ∀ t ∈ ts.head?, t.kind ≠ .minus) :
    read .unary ts = read .primary ts := by
  rw [read]
  rintro text position admitted after rfl
  exact h _ rfl rfl

theorem gives_read_number {t : Token} {v : Float} (ht : t.number? = some v) (ts : List Token)
    (e : Expr) (rest : List Token) :
    (read .primary (t :: ts)).Gives e rest ↔ Expr.number v = e ∧ ts = rest := by
  have hk := Token.kind_of_number? ht
  obtain ⟨kind, text, position, admitted⟩ := t
  subst hk
  rw [Token.number?_get, Option.some.injEq] at ht
  rw [read, Reading.gives_read, ht]

theorem gives_read_var {t : Token} (ht : t.kind = .var) (ts : List Token) (e : Expr)
    (rest : List Token) :
    (read .primary (t :: ts)).Gives e rest ↔ Expr.var t.text = e ∧ ts = rest := by
  obtain ⟨kind, text, position⟩ := t
  subst ht
  rw [read, Reading.gives_read]

theorem gives_read_call {f o : Token} (hf : f.kind = .identifier)
    (ho : o.kind = .leftParenthesis) (ts : List Token) (e : Expr) (rest : List Token) :
    (read .primary (f :: o :: ts)).Gives e rest ↔ (arguments f.text ts).Gives e rest := by
  obtain ⟨kind, text, position⟩ := f
  obtain ⟨kind', text', position'⟩ := o
  subst hf ho
  rw [read, Reading.gives_weaken]

/-- What has to stand behind an expression in parentheses. -/
theorem gives_expect_andThen {α : Type} (kind : TokenKind) (ts : List Token) (v w : α)
    (rest : List Token) :
    ((expect kind ts).andThen fun _ rest shorter => Reading.read v rest shorter).Gives w rest ↔
      ∃ c, ts = c :: rest ∧ c.kind = kind ∧ v = w := by
  simp only [Reading.gives_andThen, Reading.gives_read, exists_prop, gives_expect]
  constructor
  · rintro ⟨c, _, ⟨rfl, hk⟩, rfl, rfl⟩
    exact ⟨c, rfl, hk, rfl⟩
  · rintro ⟨c, rfl, hk, rfl⟩
    exact ⟨c, rest, ⟨rfl, hk⟩, rfl, rfl⟩

theorem gives_read_group {o : Token} (ho : o.kind = .leftParenthesis) (ts : List Token)
    (e : Expr) (rest : List Token) :
    (read .primary (o :: ts)).Gives e rest ↔
      ∃ inner c, (read expression ts).Gives inner (c :: rest) ∧ c.kind = .rightParenthesis ∧
        Expr.brackets inner = e := by
  obtain ⟨kind, text, position⟩ := o
  subst ho
  rw [read]
  simp only [Reading.gives_weaken, Reading.gives_andThen (read expression ts),
    gives_expect_andThen, exists_prop]
  constructor
  · rintro ⟨inner, _, h, c, rfl, hc⟩
    exact ⟨inner, c, h, hc⟩
  · rintro ⟨inner, c, h, hc⟩
    exact ⟨inner, c :: rest, h, c, rfl, hc⟩

/-- One argument and its closing parenthesis, or two with a comma between them. -/
theorem gives_arguments (name : String) (ts : List Token) (e : Expr) (rest : List Token) :
    (arguments name ts).Gives e rest ↔
      ∃ first m after, (read expression ts).Gives first (m :: after) ∧
        (m.kind = .rightParenthesis ∧ after = rest ∧ Expr.call name first = e ∨
          m.kind = .comma ∧ ∃ second c, (read expression after).Gives second (c :: rest) ∧
            c.kind = .rightParenthesis ∧ Expr.call2 name first second false = e) := by
  rw [arguments]
  simp only [Reading.gives_andThen (read expression ts)]
  constructor
  · rintro ⟨first, mid, hf, h⟩
    split at h
    next text position after _ =>
      simp only [Reading.gives_weaken, Reading.gives_andThen (read expression after),
        gives_expect_andThen, exists_prop] at h
      obtain ⟨second, _, hs, c, rfl, hc⟩ := h
      exact ⟨first, _, after, hf, .inr ⟨rfl, second, c, hs, hc⟩⟩
    next =>
      simp only [Reading.gives_weaken, gives_expect_andThen] at h
      obtain ⟨c, rfl, hc, he⟩ := h
      exact ⟨first, c, rest, hf, .inl ⟨hc, rfl, he⟩⟩
  · rintro ⟨first, ⟨kind, text, position⟩, after, hf, ⟨hk, rfl, he⟩ | ⟨hk, second, c, hs, hc⟩⟩
    · subst hk
      refine ⟨first, _, hf, ?_⟩
      simp only [Reading.gives_weaken, gives_expect_andThen]
      exact ⟨_, rfl, rfl, he⟩
    · subst hk
      refine ⟨first, _, hf, ?_⟩
      simp only [Reading.gives_weaken, Reading.gives_andThen (read expression after),
        gives_expect_andThen, exists_prop]
      exact ⟨second, c :: rest, hs, c, rfl, hc⟩

theorem not_gives_read_nil (e : Expr) (rest : List Token) : ¬(read .primary []).Gives e rest := by
  rw [read]
  exact Reading.not_gives_stuck _ _ _ _ _

/-- An operand starts with a number, a variable, a name or a parenthesis. -/
theorem gives_read_primary {t : Token} {ts : List Token} {e : Expr} {rest : List Token}
    (h : (read .primary (t :: ts)).Gives e rest) :
    t.kind = .number ∨ t.kind = .var ∨ t.kind = .leftParenthesis ∨
      t.kind = .identifier ∧ ∃ o after, ts = o :: after ∧ o.kind = .leftParenthesis := by
  generalize hl : t :: ts = l at h
  rw [read.eq_def] at h
  dsimp only at h
  split at h
  next => cases hl
  next => cases hl; exact .inl rfl
  next => cases hl; exact .inr (.inl rfl)
  next => cases hl; exact .inr (.inr (.inr ⟨rfl, _, _, rfl, rfl⟩))
  next => exact absurd h (Reading.not_gives_stuck _ _ _ _ _)
  next => cases hl; exact .inr (.inr (.inl rfl))
  next => exact absurd h (Reading.not_gives_stuck _ _ _ _ _)

end Grammar
end Isotherm
