import Isotherm.Formula.Reader
import Isotherm.Proofs.Formula.Readers

/-!
# The reader accepts the grammar

The readers are compared with `Grammar.Derives` in both directions. What a reader takes is a phrase
of its level, and a phrase is read whole wherever the token behind it does not go on with it. The
reader of equations therefore accepts exactly what the grammar derives, and a list of tokens has at
most one tree.
-/

namespace Isotherm
namespace Grammar

/-! ## Soundness -/

/-- Whatever a reader takes is a phrase of its level. -/
theorem derives_of_gives (level : Level) (ts : List Token) {e : Expr} {rest : List Token}
    (h : (read level ts).Gives e rest) : ∃ us, ts = us ++ rest ∧ Derives level us e := by
  -- The induction is the readers' own. Of the arguments of a call it says which token closes them;
  -- of a chain being extended, that any phrase for its left part grows into one for the whole.
  revert h e rest
  refine (read.mutual_induct
    (fun level ts => ∀ {e rest}, (read level ts).Gives e rest →
      ∃ us, ts = us ++ rest ∧ Derives level us e)
    (fun name ts => ∀ {e rest}, (arguments name ts).Gives e rest →
      ∃ us, ts = us ++ rest ∧ ∀ f o : Token, f.kind = .identifier → f.text = name →
        o.kind = .leftParenthesis → Derives .primary (f :: o :: us) e)
    (fun c l ts => ∀ {e rest}, (extend c l ts).Gives e rest →
      ∃ us, ts = us ++ rest ∧ ∀ ls, Derives (.chain c) ls l → Derives (.chain c) (ls ++ us) e)
    ?chain ?power ?minus ?unary ?nil ?number ?var ?call ?uncalled ?group ?other ?arguments
    ?extendNil ?extendEnd ?extendJoint).1 level ts
  case chain =>
    intro ts c _ ihl ihr e rest h
    obtain ⟨l, mid, hl, hr⟩ := (gives_read_chain ..).mp h
    obtain ⟨ls, rfl, hls⟩ := ihl hl
    obtain ⟨rs, rfl, hrs⟩ := ihr l mid hl.length_lt hr
    exact ⟨ls ++ rs, by simp, hrs ls (.operand hls)⟩
  case power =>
    intro ts ihl ihr e rest h
    obtain ⟨l, mid, hl, hr⟩ := (gives_read_power ..).mp h
    obtain ⟨ls, rfl, hls⟩ := ihl hl
    rcases hr with ⟨_, rfl, rfl⟩ | ⟨⟨kind, text, position⟩, after, r, rfl, hk, hr, rfl⟩
    · exact ⟨ls, rfl, .base hls⟩
    · subst hk
      obtain ⟨rs, rfl, hrs⟩ := ihr text position trivial after hl.length_lt hr
      exact ⟨ls ++ ⟨.power, text, position, trivial⟩ :: rs, by simp, .power hls rfl hrs⟩
  case minus =>
    intro text position _ after ih e rest h
    obtain ⟨operand, ho, rfl⟩ := (gives_read_minus rfl ..).mp h
    obtain ⟨us, rfl, hus⟩ := ih ho
    exact ⟨⟨.minus, text, position, trivial⟩ :: us, rfl, hus.negation rfl⟩
  case unary =>
    intro ts hne ih e rest h
    rw [read_unary fun ⟨kind, text, position, _⟩ ht hk => by
      obtain ⟨after, rfl⟩ := List.head?_eq_some_iff.mp ht
      subst hk
      exact hne _ _ _ _ rfl] at h
    obtain ⟨us, hts, hus⟩ := ih h
    exact ⟨us, hts, .primary hus⟩
  case nil =>
    intro e rest h
    exact absurd h (not_gives_read_nil e rest)
  case number =>
    intro text position admitted rest e rest' h
    have ht := Token.number?_get text position admitted
    obtain ⟨rfl, rfl⟩ := (gives_read_number ht ..).mp h
    exact ⟨[⟨.number, text, position, admitted⟩], rfl, .number ht⟩
  case var =>
    intro name position _ rest e rest' h
    obtain ⟨rfl, rfl⟩ := (gives_read_var rfl ..).mp h
    exact ⟨[⟨.var, name, position, trivial⟩], rfl, .var rfl⟩
  case call =>
    intro name position _ text position' _ rest ih e rest' h
    obtain ⟨us, rfl, hus⟩ := ih ((gives_read_call rfl rfl ..).mp h)
    exact ⟨_ :: _ :: us, rfl, hus _ _ rfl rfl rfl⟩
  case uncalled =>
    intro name position _ rest hne e rest' h
    obtain h | h | h | ⟨_, ⟨kind, text, position'⟩, after, rfl, hk⟩ := gives_read_primary h
    · cases h
    · cases h
    · cases h
    · subst hk
      exact absurd rfl (hne _ _ _ _)
  case group =>
    intro text position _ after ih e rest h
    obtain ⟨inner, c, hi, hc, rfl⟩ := (gives_read_group rfl ..).mp h
    obtain ⟨us, rfl, hus⟩ := ih hi
    exact ⟨⟨.leftParenthesis, text, position, trivial⟩ :: (us ++ [c]), by simp, .group rfl hus hc⟩
  case other =>
    rintro ⟨kind, text, position, admitted⟩ rest h1 h2 _ h3 h4 e rest' h
    obtain h | h | h | ⟨h, _⟩ := gives_read_primary h <;> subst h
    · exact absurd rfl (h1 text position admitted)
    · exact absurd rfl (h2 text position admitted)
    · exact absurd rfl (h4 text position admitted)
    · exact absurd rfl (h3 text position admitted)
  case arguments =>
    intro name ts ihf ihs e rest h
    obtain ⟨first, ⟨kind, text, position, admitted⟩, after, hf, ha⟩ := (gives_arguments ..).mp h
    obtain ⟨us, rfl, hus⟩ := ihf hf
    rcases ha with ⟨hk, rfl, rfl⟩ | ⟨hk, second, c, hs, hc, rfl⟩
    · refine ⟨us ++ [⟨kind, text, position, admitted⟩], by simp, fun f o hf' hn ho => ?_⟩
      subst hn
      exact .call hf' ho hus hk
    · subst hk
      obtain ⟨vs, rfl, hvs⟩ := ihs text position trivial after hf.length_lt hs
      refine ⟨us ++ ⟨.comma, text, position, trivial⟩ :: (vs ++ [c]), by simp,
        fun f o hf' hn ho => ?_⟩
      subst hn
      exact .call2 hf' ho hus rfl hvs hc
  case extendNil =>
    intro c l e rest h
    obtain ⟨rfl, rfl⟩ := (gives_extend_nil ..).mp h
    exact ⟨[], rfl, fun ls hls => by simpa using hls⟩
  case extendEnd =>
    intro c l t ts hj e rest h
    obtain ⟨rfl, rfl⟩ := (gives_extend_end hj ..).mp h
    exact ⟨[], rfl, fun ls hls => by simpa using hls⟩
  case extendJoint =>
    intro c l t ts join hj ihr ihe e rest h
    obtain ⟨r, mid, hr, he⟩ := (gives_extend_joint hj ..).mp h
    obtain ⟨rs, rfl, hrs⟩ := ihr hr
    obtain ⟨us, rfl, hus⟩ := ihe r mid hr.length_lt he
    refine ⟨t :: (rs ++ us), by simp, fun ls hls => ?_⟩
    have := hus _ (hls.chain ((joint?_eq_some_iff ..).mp hj) hrs)
    simpa using this

/-! ## Completeness -/

/-- The kinds of token that go on with a phrase of the level when they stand behind it. -/
def Level.joints : Level → List TokenKind
  | .chain .infixed => [.identifier, .plus, .minus, .multiply, .divide, .modulus, .power]
  | .chain .additive => [.plus, .minus, .multiply, .divide, .modulus, .power]
  | .chain .multiplicative => [.multiply, .divide, .modulus, .power]
  | .power => [.power]
  | .unary | .primary => []

/-- A phrase of the level ends in front of these tokens. -/
def Stops (level : Level) (rest : List Token) : Prop :=
  ∀ t ∈ rest.head?, t.kind ∉ level.joints

theorem stops_nil (level : Level) : Stops level [] := by
  simp [Stops]

theorem stops_cons (level : Level) (t : Token) (rest : List Token) :
    Stops level (t :: rest) ↔ t.kind ∉ level.joints := by
  simp [Stops]

/-- No phrase goes on with a closing parenthesis, a comma or an equals sign. -/
theorem stops_of_closing {level : Level} {t : Token} (rest : List Token)
    (ht : t.kind = .rightParenthesis ∨ t.kind = .comma ∨ t.kind = .equals) :
    Stops level (t :: rest) := by
  rw [stops_cons]
  rcases ht with ht | ht | ht <;> rw [ht] <;> cases level <;> try decide
  all_goals rename_i c; cases c <;> decide

theorem Stops.operand {c : Chain} {rest : List Token} (h : Stops (.chain c) rest) :
    Stops c.operand rest := by
  intro t ht hk
  apply h t ht
  cases c <;> simp_all [Chain.operand, Level.joints]

theorem Joins.not_mem_joints {c : Chain} {t : Token} {join : Expr → Expr → Expr}
    (h : Joins c t join) : t.kind ∉ c.operand.joints := by
  rcases h with (h | h | h | h | h | h) <;> rw [h] <;> decide

theorem joint?_eq_none {c : Chain} {t : Token} (h : t.kind ∉ (Level.chain c).joints) :
    c.joint? t = none := by
  cases hj : c.joint? t with
  | none => rfl
  | some join =>
    rcases (joint?_eq_some_iff ..).mp hj with (hk | hk | hk | hk | hk | hk) <;> rw [hk] at h <;>
      exact absurd (by decide) h

/-- A phrase is read whole in front of tokens that do not go on with it. A chain is also read up to
any joint of its own, and then extended. -/
def ReadWhole : Level → List Token → Expr → Prop
  | .chain c, ts, e => ∀ rest e' rest', Stops c.operand rest →
      (extend c e rest).Gives e' rest' → (read (.chain c) (ts ++ rest)).Gives e' rest'
  | level, ts, e => ∀ rest, Stops level rest → (read level (ts ++ rest)).Gives e rest

theorem ReadWhole.gives {level : Level} {ts : List Token} {e : Expr} (h : ReadWhole level ts e)
    (rest : List Token) (hs : Stops level rest) : (read level (ts ++ rest)).Gives e rest := by
  cases level with
  | chain c =>
    apply h rest e rest hs.operand
    cases rest with
    | nil => exact (gives_extend_nil ..).mpr ⟨rfl, rfl⟩
    | cons t rest =>
      exact (gives_extend_end (joint?_eq_none ((stops_cons ..).mp hs)) ..).mpr ⟨rfl, rfl⟩
  | power => exact h rest hs
  | unary => exact h rest hs
  | primary => exact h rest hs

/-- No operand starts with a minus, and none is empty. -/
theorem Derives.head_primary {ts : List Token} {e : Expr} (h : Derives .primary ts e) :
    ∃ t us, ts = t :: us ∧ t.kind ≠ .minus := by
  cases h with
  | number ht => exact ⟨_, _, rfl, by rw [Token.kind_of_number? ht]; decide⟩
  | var ht => exact ⟨_, _, rfl, by rw [ht]; decide⟩
  | call hf => exact ⟨_, _, rfl, by rw [hf]; decide⟩
  | call2 hf => exact ⟨_, _, rfl, by rw [hf]; decide⟩
  | group ho => exact ⟨_, _, rfl, by rw [ho]; decide⟩

theorem readWhole_of_derives {level : Level} {ts : List Token} {e : Expr}
    (h : Derives level ts e) : ReadWhole level ts e := by
  induction h with
  | operand h ih =>
    intro rest e' rest' hs hx
    exact (gives_read_chain ..).mpr ⟨_, rest, ih.gives rest hs, hx⟩
  | @chain c ls rs l r t join hl ht hr ihl ihr =>
    intro rest e' rest' hs hx
    rw [List.append_assoc, List.cons_append]
    refine ihl _ _ _ ((stops_cons ..).mpr ht.not_mem_joints) ?_
    exact (gives_extend_joint ((joint?_eq_some_iff ..).mpr ht) ..).mpr
      ⟨r, rest, ihr.gives rest hs, hx⟩
  | base h ih =>
    intro rest hs
    refine (gives_read_power ..).mpr ⟨_, rest, ih rest (by simp [Stops, Level.joints]), .inl ?_⟩
    exact ⟨fun t ht hk => hs t ht (by rw [hk]; decide), rfl, rfl⟩
  | @power ls rs l r t hl ht hr ihl ihr =>
    intro rest hs
    rw [List.append_assoc, List.cons_append]
    refine (gives_read_power ..).mpr ⟨l, _, ihl _ (by simp [Stops, Level.joints]), .inr ?_⟩
    exact ⟨t, _, r, rfl, ht, ihr rest hs, rfl⟩
  | primary h ih =>
    intro rest hs
    obtain ⟨t, us, rfl, ht⟩ := h.head_primary
    rw [read_unary (by simpa using ht)]
    exact ih rest hs
  | @negateGroup t ts e ht h ih =>
    intro rest hs
    exact (gives_read_minus ht ..).mpr ⟨_, ih rest hs, rfl⟩
  | @negate t ts e ht h he ih =>
    intro rest hs
    exact (gives_read_minus ht ..).mpr ⟨e, ih rest hs, negation_of_ne he⟩
  | number ht =>
    intro rest _
    exact (gives_read_number ht ..).mpr ⟨rfl, rfl⟩
  | var ht =>
    intro rest _
    exact (gives_read_var ht ..).mpr ⟨rfl, rfl⟩
  | @call f o c ts e hf ho h hc ih =>
    intro rest _
    have hi := ih.gives (c :: rest) (stops_of_closing rest (.inl hc))
    rw [List.append_cons] at hi
    refine (gives_read_call hf ho ..).mpr ((gives_arguments ..).mpr ⟨e, c, rest, hi, .inl ?_⟩)
    exact ⟨hc, rfl, rfl⟩
  | @call2 f o m c ts us l r hf ho hl hm hr hc ihl ihr =>
    intro rest _
    have hi := ihl.gives (m :: (us ++ [c] ++ rest)) (stops_of_closing _ (.inr (.inl hm)))
    have hj := ihr.gives (c :: rest) (stops_of_closing rest (.inl hc))
    rw [← List.cons_append, ← List.append_assoc] at hi
    rw [List.append_cons] at hj
    exact (gives_read_call hf ho ..).mpr ((gives_arguments ..).mpr
      ⟨l, m, us ++ [c] ++ rest, hi, .inr ⟨hm, r, c, hj, hc, rfl⟩⟩)
  | @group o c ts e ho h hc ih =>
    intro rest _
    have hi := ih.gives (c :: rest) (stops_of_closing rest (.inl hc))
    rw [List.append_cons] at hi
    exact (gives_read_group ho ..).mpr ⟨e, c, hi, hc, rfl⟩

/-! ## Whole expressions and equations -/

/-- The reader of equations succeeds on the phrases of the grammar, with their trees, and leaves
nothing. -/
theorem gives_equation (ts : List Token) (e : Equation) (rest : List Token) :
    (equation ts).Gives e rest ↔ rest = [] ∧ DerivesEquation ts e := by
  unfold equation
  simp only [Reading.gives_andThen (read expression ts), Reading.gives_within]
  constructor
  · rintro ⟨l, mid, hl, h⟩
    simp only [Reading.gives_andThen, Reading.gives_within, gives_expect] at h
    obtain ⟨t, after, ⟨rfl, ht⟩, r, left, hr, h⟩ := h
    cases left with
    | cons u us => exact absurd h (Reading.not_gives_stuck _ _ _ _ _)
    | nil =>
      obtain ⟨rfl, rfl⟩ := (Reading.gives_read ..).mp h
      obtain ⟨ls, rfl, hls⟩ := derives_of_gives _ _ hl
      obtain ⟨rs, rfl, hrs⟩ := derives_of_gives _ _ hr
      rw [List.append_nil]
      exact ⟨rfl, .sides hls ht hrs⟩
  · rintro ⟨rfl, ⟨hl, ht, hr⟩⟩
    rename_i ls rs l r t
    have hl := (readWhole_of_derives hl).gives (t :: rs) (stops_of_closing _ (.inr (.inr ht)))
    have hr := (readWhole_of_derives hr).gives [] (stops_nil _)
    rw [List.append_nil] at hr
    refine ⟨l, _, hl, ?_⟩
    simp only [Reading.gives_andThen, Reading.gives_within, gives_expect]
    refine ⟨t, rs, ⟨rfl, ht⟩, r, [], hr, ?_⟩
    simp

theorem DerivesEquation.unique {ts : List Token} {e e' : Equation} (h : DerivesEquation ts e)
    (h' : DerivesEquation ts e') : e = e' :=
  (((gives_equation ts e []).mpr ⟨rfl, h⟩).unique ((gives_equation ts e' []).mpr ⟨rfl, h'⟩)).1

theorem not_derivesEquation_nil (e : Equation) : ¬DerivesEquation [] e := by
  intro h
  generalize hn : [] = ts at h
  cases h
  simp at hn

/-- Read from its start, a list of tokens is the equation that the grammar derives from it. -/
theorem equation_start_eq_ok (ts : List Token) (e : Equation) :
    (Cursor.start ts).equation.1 = .ok e ↔ DerivesEquation ts e := by
  unfold Cursor.equation
  split
  next h =>
    obtain rfl : ts = [] := List.isEmpty_iff.mp h
    exact iff_of_false (by simp) (not_derivesEquation_nil e)
  next =>
    have h := gives_equation ts e []
    simp only [true_and] at h
    rw [← h]
    show (Cursor.advance _ (equation ts)).1 = _ ↔ _
    cases hr : equation ts with
    | read v rest shorter =>
      obtain ⟨rfl, -⟩ := (gives_equation ts v rest).mp ⟨shorter, hr⟩
      simp [Cursor.advance]
    | stuck fault rest within => simp [Cursor.advance]

end Grammar
end Isotherm
