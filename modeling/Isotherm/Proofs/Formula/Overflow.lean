import Isotherm.Proofs.Formula.NormalForm
import Isotherm.Proofs.Formula.SimplifiedText
import Isotherm.Proofs.Number.Bounds

/-!
# Literals past the largest double

A literal past the largest double is read as infinity, and infinity is written `+Inf`. In an
equation a plus stands only behind an operand, never in front of one, so the text of an equation
with such a literal cannot be read, simplified or not. Without such a literal both texts are read
again and written as they were.
-/

namespace Isotherm

/-! ## Where a plus can stand -/

/-- The kinds of the last token of an operand. -/
def TokenKind.Closes (kind : TokenKind) : Prop :=
  kind ∈ [number, var, rightParenthesis]

instance (kind : TokenKind) : Decidable kind.Closes :=
  inferInstanceAs (Decidable (kind ∈ _))

/-- Whether `t` can stand right behind `p`: a plus stands behind an operand. -/
def Token.Follows (p t : Token) : Prop :=
  t.kind = .plus → p.kind.Closes

theorem Token.follows_of_closes {p : Token} (h : p.kind.Closes) (t : Token) : Follows p t :=
  fun _ => h

theorem Token.follows_of_ne {t : Token} (h : t.kind ≠ .plus) (p : Token) : Follows p t :=
  fun ht => absurd ht h

namespace Grammar

open Token (Follows)

/-- Tokens that keep a plus in its place, whatever stands in front of them and behind. -/
def Phrase (ts : List Token) : Prop :=
  ∀ front behind : Token, (front :: (ts ++ [behind])).IsChain Follows

theorem Phrase.single {t : Token} (ht : t.kind ≠ .plus) (h : t.kind.Closes) : Phrase [t] := by
  intro front behind
  simp [Token.follows_of_ne ht, Token.follows_of_closes h]

theorem Phrase.joined {ls rs : List Token} (hl : Phrase ls) (t : Token) (hr : Phrase rs) :
    Phrase (ls ++ t :: rs) := by
  intro front behind
  rw [List.append_assoc, List.cons_append, List.isChain_cons_split]
  exact ⟨hl front t, hr t behind⟩

theorem Phrase.behind {t : Token} {ts : List Token} (ht : t.kind ≠ .plus) (h : Phrase ts) :
    Phrase (t :: ts) := by
  intro front behind
  exact .cons_cons (Token.follows_of_ne ht front) (h t behind)

theorem Phrase.closed {ts : List Token} (h : Phrase ts) {c : Token} (hc : c.kind.Closes) :
    Phrase (ts ++ [c]) := by
  intro front behind
  rw [List.append_assoc, List.singleton_append, List.isChain_cons_split]
  exact ⟨h front c, by simp [Token.follows_of_closes hc]⟩

/-- In what the grammar derives, a plus stands behind an operand. -/
theorem Derives.phrase {level : Level} {ts : List Token} {e : Expr} (h : Derives level ts e) :
    Phrase ts := by
  have hne {t : Token} {kind : TokenKind} (h : t.kind = kind) (hkind : kind ≠ .plus) :
      t.kind ≠ .plus := h ▸ hkind
  have hcloses {t : Token} {kind : TokenKind} (h : t.kind = kind) (hkind : kind.Closes) :
      t.kind.Closes := h ▸ hkind
  induction h with
  | operand _ ih | base _ ih | primary _ ih => exact ih
  | chain _ _ _ ihl ihr | power _ _ _ ihl ihr => exact ihl.joined _ ihr
  | negateGroup ht _ ih => exact ih.behind (hne ht (by decide))
  | negate ht _ _ ih => exact ih.behind (hne ht (by decide))
  | number ht =>
    have hk := Token.kind_of_number? ht
    exact .single (hne hk (by decide)) (hcloses hk (by decide))
  | var ht => exact .single (hne ht (by decide)) (hcloses ht (by decide))
  | call hf ho _ hc ih =>
    have hgroup := (ih.closed (hcloses hc (by decide))).behind (hne ho (by decide))
    exact hgroup.behind (hne hf (by decide))
  | call2 hf ho _ _ _ hc ihl ihr =>
    have harguments := fun m => ihl.joined m (ihr.closed (hcloses hc (by decide)))
    exact ((harguments _).behind (hne ho (by decide))).behind (hne hf (by decide))
  | group ho _ hc ih => exact (ih.closed (hcloses hc (by decide))).behind (hne ho (by decide))

theorem DerivesEquation.phrase {ts : List Token} {e : Equation} (h : DerivesEquation ts e) :
    Phrase ts := by
  cases h with
  | sides hl _ hr => exact hl.phrase.joined _ hr.phrase

end Grammar

/-! ## Texts with a plus out of place -/

namespace Token

/-- The tokens of the text, if it has any, have a plus out of place. -/
def Broken (cs : List Char) : Prop :=
  ∀ position ts, scan cs position = .ok ts → ¬ts.IsChain Follows

/-- The tokens of the text have a plus out of place where an operand is due. -/
def BrokenOperand (cs : List Char) : Prop :=
  ∀ position ts, scan cs position = .ok ts →
    ∀ front : Token, ¬front.kind.Closes → ¬(front :: ts).IsChain Follows

theorem Broken.operand {cs : List Char} (h : Broken cs) : BrokenOperand cs := by
  intro position ts hts front _ hchain
  exact h position ts hts hchain.of_cons

theorem exists_of_scan_map {cs : List Char} {position : Nat} {f : List Token → List Token}
    {ts : List Token} (h : (scan cs position).map f = .ok ts) :
    ∃ us, scan cs position = .ok us ∧ f us = ts := by
  cases hs : scan cs position with
  | error e =>
    rw [hs] at h
    cases h
  | ok us =>
    rw [hs] at h
    exact ⟨us, rfl, Except.ok.inj h⟩

/-- A text that is cut into some tokens and those of `cs`, which have a plus out of place. -/
theorem Broken.of_scan {cs ds : List Char} (h : Broken cs)
    (hscan : ∀ position, ∃ next us, scan ds position = (scan cs next).map (us ++ ·)) :
    Broken ds := by
  intro position ts hts hchain
  obtain ⟨next, us, heq⟩ := hscan position
  obtain ⟨vs, hvs, rfl⟩ := exists_of_scan_map (heq.symm.trans hts)
  exact h next vs hvs hchain.right_of_append

/-- A token that ends no operand, and then an operand with a plus out of place. -/
theorem BrokenOperand.behind {cs ds : List Char} (h : BrokenOperand cs) {kind : TokenKind}
    (hkind : ¬kind.Closes) (hscan : ∀ position, ∃ next text place admitted,
      scan ds position = (scan cs next).map (⟨kind, text, place, admitted⟩ :: ·)) :
    Broken ds := by
  intro position ts hts hchain
  obtain ⟨next, text, place, admitted, heq⟩ := hscan position
  obtain ⟨vs, hvs, rfl⟩ := exists_of_scan_map (heq.symm.trans hts)
  exact h next vs hvs ⟨kind, text, place, admitted⟩ hkind hchain

end Token

namespace Expr

open Token (Broken BrokenOperand scan)

theorem broken_group {cs : List Char} (h : BrokenOperand cs) : Broken ('(' :: cs) :=
  h.behind (by decide) fun position => ⟨_, _, _, _, scan_open cs position⟩

theorem broken_call {name : String} (hname : IsFunctionName name) {cs : List Char}
    (h : Broken ('(' :: cs)) : Broken (name.toList ++ '(' :: cs) :=
  h.of_scan fun position =>
    ⟨_, [_], scan_function hname (boundary_cons (by decide) cs) position⟩

/-- What stands behind a printable tree keeps its plus out of place. -/
theorem broken_chars {l : Expr} (hl : l.Printable) {c : Char} (hc : c ∈ [' ', '(', ')', ','])
    {cs : List Char} (h : Broken (c :: cs)) : Broken (l.chars ++ c :: cs) :=
  h.of_scan fun position => ⟨_, _, cuts hl position _ (boundary_cons hc cs)⟩

/-- Two texts around a joint have a plus out of place where one of them has; it does not matter what
stands in front of the joint if that can be printed. -/
theorem brokenOperand_joined {l r : Expr} {text : String} {kind : TokenKind} {rest : List Char}
    (hadmitted : kind.Admits text)
    (hscan : ∀ rest position, scan (text.toList ++ ' ' :: rest) position =
      (scan (' ' :: rest) (position + text.toList.length)).map
        (⟨kind, text, position, hadmitted⟩ :: ·))
    (hkind : ¬kind.Closes) (hl : ¬l.Printable → ∀ rest, BrokenOperand (l.chars ++ rest))
    (hr : ¬r.Printable → BrokenOperand (r.chars ++ rest)) (h : ¬(l.Printable ∧ r.Printable)) :
    BrokenOperand (l.chars ++ ' ' :: (text.toList ++ ' ' :: (r.chars ++ rest))) := by
  by_cases hprintable : l.Printable
  · have hright := hr fun hr => h ⟨hprintable, hr⟩
    have hjoint : Broken (' ' :: (text.toList ++ ' ' :: (r.chars ++ rest))) := by
      refine hright.behind hkind fun position =>
        ⟨position + 1 + text.toList.length + 1, text, position + 1, hadmitted, ?_⟩
      rw [scan_space, hscan, scan_space]
    exact (broken_chars hprintable (by decide) hjoint).operand
  · exact hl hprintable _

/-- A value that a literal can have: a finite number without a sign, or infinity. -/
def IsLiteral (v : Float) : Prop :=
  v = infinity ∨ v.isFinite = true ∧ signBit v = false

theorem isLiteral_of_mem_literals {ts : List Token} (hts : ∀ t ∈ ts, t.WellFormed) {v : Float}
    (h : v ∈ Token.literals ts) : IsLiteral v := by
  obtain ⟨t, ht, hvalue⟩ := Token.mem_literals.mp h
  obtain ⟨n, -, -, hn⟩ := (hts t ht).numeral (Token.kind_of_number? hvalue)
  obtain rfl := Option.some.inj (hn.symm.trans hvalue)
  cases hfinite : (n.decimal.toFloat false).isFinite with
  | true => exact .inr ⟨hfinite, Decimal.signBit_toFloat hfinite⟩
  | false => exact .inl (Decimal.toFloat_eq_infinity hfinite)

/-- Among the trees of formulas the printable ones are those without an infinity. -/
theorem printable_iff_finite {e : Expr} (hnamed : e.Named)
    (hnumbers : ∀ v ∈ e.numbers, IsLiteral v) :
    e.Printable ↔ ∀ v ∈ e.numbers, v.isFinite = true := by
  refine printable_iff.trans ⟨fun h v hv => (h.2 v hv).1, fun h => ⟨hnamed, fun v hv => ?_⟩⟩
  rcases hnumbers v hv with rfl | hv
  · cases h infinity hv
  · exact hv

theorem brokenOperand_infinity (rest : List Char) :
    BrokenOperand ((number infinity).chars ++ rest) := by
  intro position ts hts front hfront hchain
  have hchars : (number infinity).chars ++ rest = '+' :: ("Inf".toList ++ rest) := rfl
  have hplus : TokenKind.ofMark? '+' = some .plus := rfl
  rw [hchars, Token.scan_mark hplus] at hts
  obtain ⟨us, -, rfl⟩ := Token.exists_of_scan_map hts
  exact hfront (hchain.rel rfl)

/-- The text of a tree that cannot be printed for an infinity among its numbers has a plus in front
of an operand. -/
theorem brokenOperand_of_not_printable {e : Expr} (hnamed : e.Named)
    (hnumbers : ∀ v ∈ e.numbers, IsLiteral v) (h : ¬e.Printable) (rest : List Char) :
    BrokenOperand (e.chars ++ rest) := by
  induction e generalizing rest with
  | number v =>
    obtain rfl : v = infinity := (hnumbers v (by simp [numbers])).resolve_right h
    exact brokenOperand_infinity rest
  | var name => exact absurd hnamed h
  | binary l o r ihl ihr =>
    simp only [numbers, List.forall_mem_append] at hnumbers
    simp only [chars, List.append_assoc, List.cons_append]
    obtain ⟨hnl, ho, hnr⟩ := hnamed
    have hkind : ∀ o ∈ Operator.known, ¬o.kind.Closes := by decide
    exact brokenOperand_joined _ (fun _ => scan_operator ho _) (hkind o ho) (ihl hnl hnumbers.1)
      (fun hr => ihr hnr hnumbers.2 hr rest) fun hboth => h ⟨hboth.1, ho, hboth.2⟩
  | negate e ih =>
    simp only [chars, List.append_assoc, List.cons_append]
    exact ((broken_group (ih hnamed hnumbers h _)).of_scan fun position =>
      ⟨_, [_], scan_minus _ position⟩).operand
  | brackets e ih =>
    simp only [chars, List.append_assoc, List.cons_append]
    exact (broken_group (ih hnamed hnumbers h _)).operand
  | call name e ih =>
    simp only [chars, List.append_assoc, List.cons_append]
    have he : ¬e.Printable := fun he => h ⟨hnamed.1, he⟩
    exact (broken_call hnamed.1 (broken_group (ih hnamed.2 hnumbers he _))).operand
  | call2 name l r infixed ihl ihr =>
    simp only [numbers, List.forall_mem_append] at hnumbers
    obtain ⟨hname, hnl, hnr⟩ := hnamed
    cases infixed with
    | true =>
      simp only [chars, List.append_assoc, List.cons_append]
      exact brokenOperand_joined _ (fun _ => scan_function hname (boundary_cons (by decide) _))
        (by decide) (ihl hnl hnumbers.1) (fun hr => ihr hnr hnumbers.2 hr rest) fun hboth =>
          h ⟨hname, hboth⟩
    | false =>
      simp only [chars, List.append_assoc, List.cons_append]
      by_cases hl : l.Printable
      · have hr : ¬r.Printable := fun hr => h ⟨hname, hl, hr⟩
        have hkind : ¬TokenKind.comma.Closes := by decide
        have hcomma : Broken (',' :: ' ' :: (r.chars ++ ([')'] ++ rest))) :=
          (ihr hnr hnumbers.2 hr _).behind hkind fun position =>
            ⟨_, ",", position, trivial, by rw [scan_comma, scan_space]⟩
        have hgroup := (broken_chars hl (by decide) hcomma).operand
        exact (broken_call hname (broken_group hgroup)).operand
      · exact (broken_call hname (broken_group (ihl hnl hnumbers.1 hl _))).operand
  | foreign => exact absurd hnamed h

end Expr

/-! ## Equations -/

namespace Equation

open Grammar

/-- A text with a plus out of place is read by no derivation. -/
theorem parse_eq_error_of_brokenOperand {text : String}
    (h : Token.BrokenOperand text.toList) : ∃ error, parse text = .error error := by
  cases hr : parse text with
  | error error => exact ⟨error, rfl⟩
  | ok e =>
    obtain ⟨ts, hts, hd⟩ := (parse_eq_ok text e).mp hr
    let front : Token := ⟨.comma, ",", 0, trivial⟩
    have hchain : (front :: ts).IsChain Token.Follows :=
      List.IsChain.left_of_append (hd.phrase front front)
    exact absurd hchain (h 0 ts ((Token.tokenize_eq_ok text ts).mp hts) front (by decide))

/-- The sides of an equation that was read, simplified or not. -/
structure Readable (lhs rhs : Expr) : Prop where
  named : lhs.Named ∧ rhs.Named
  literal : ∀ v ∈ lhs.numbers ++ rhs.numbers, Expr.IsLiteral v
  reads : expression.Reads lhs ∧ expression.Reads rhs

section

variable {lhs rhs : Expr}

theorem Readable.simplify (h : Readable lhs rhs) :
    Readable (lhs.simplify false) (rhs.simplify false) := by
  have hexpression : expression ≠ .primary := by decide
  refine ⟨⟨h.named.1.simplify false, h.named.2.simplify false⟩, ?_,
    h.reads.1.simplify hexpression (.inr rfl), h.reads.2.simplify hexpression (.inr rfl)⟩
  rw [Expr.numbers_simplify, Expr.numbers_simplify]
  exact h.literal

theorem Readable.hasForeign (h : Readable lhs rhs) :
    lhs.hasForeign = false ∧ rhs.hasForeign = false := by
  obtain ⟨⟨ls, hl⟩, rs, hr⟩ := h.reads
  exact ⟨hl.hasForeign, hr.hasForeign⟩

theorem Readable.checkedText (h : Readable lhs rhs) :
    (ofSides lhs rhs).checkedText = .ok (textOfSides lhs rhs) :=
  checkedText_ofSides h.hasForeign.1 h.hasForeign.2

theorem Readable.checkedSimplify (h : Readable lhs rhs) :
    (ofSides lhs rhs).checkedSimplify =
      .ok (ofSides (lhs.simplify false) (rhs.simplify false)) := by
  refine checkedSimplify_eq_ok ?_
  simp [Equation.hasForeign, ofSides, h.hasForeign]

/-- Sides without an infinity can be written. -/
theorem Readable.printable_iff (h : Readable lhs rhs) :
    lhs.Printable ∧ rhs.Printable ↔ ∀ v ∈ lhs.numbers ++ rhs.numbers, v.isFinite = true := by
  obtain ⟨hl, hr⟩ := List.forall_mem_append.mp h.literal
  rw [List.forall_mem_append, Expr.printable_iff_finite h.named.1 hl,
    Expr.printable_iff_finite h.named.2 hr]

/-- A text that is read, and is the text of what was read. -/
def ReadsAgain (text : String) : Prop :=
  ∃ e, parse text = .ok e ∧ e.checkedText = .ok text

theorem Readable.readsAgain (h : Readable lhs rhs)
    (hfinite : ∀ v ∈ lhs.numbers ++ rhs.numbers, v.isFinite = true) :
    ReadsAgain (textOfSides lhs rhs) := by
  obtain ⟨hl, hr⟩ := h.printable_iff.mpr hfinite
  exact ⟨_, parse_textOfSides_of_reads hl hr h.reads.1 h.reads.2, h.checkedText⟩

/-- The text of sides with an infinity is not read. -/
theorem Readable.parse_eq_error (h : Readable lhs rhs)
    (hinfinite : ∃ v ∈ lhs.numbers ++ rhs.numbers, v.isFinite = false) :
    ∃ error, parse (textOfSides lhs rhs) = .error error := by
  obtain ⟨v, hv, hinfinite⟩ := hinfinite
  have hbroken : ¬(lhs.Printable ∧ rhs.Printable) := by
    rw [h.printable_iff]
    intro hfinite
    rw [hfinite v hv] at hinfinite
    cases hinfinite
  obtain ⟨hl, hr⟩ := List.forall_mem_append.mp h.literal
  refine parse_eq_error_of_brokenOperand ?_
  rw [textOfSides, String.toList_ofList]
  have hequals (rest : List Char) (position : Nat) :
      Token.scan ("=".toList ++ ' ' :: rest) position =
        (Token.scan (' ' :: rest) (position + "=".toList.length)).map
          (⟨.equals, "=", position, trivial⟩ :: ·) := Token.scan_mark rfl _ _
  have hjoined := Expr.brokenOperand_joined _ hequals (by decide)
    (Expr.brokenOperand_of_not_printable h.named.1 hl)
    (fun hrhs => Expr.brokenOperand_of_not_printable h.named.2 hr hrhs []) hbroken
  rwa [List.append_nil] at hjoined

end

theorem exists_readable_of_parse {source : String} {e : Equation} (h : parse source = .ok e) :
    ∃ ts lhs rhs, Token.tokenize source = .ok ts ∧ e = ofSides lhs rhs ∧ Readable lhs rhs ∧
      lhs.numbers ++ rhs.numbers = Token.literals ts := by
  obtain ⟨ts, hts, hd⟩ := (parse_eq_ok source e).mp h
  have hwell := Token.wellFormed_of_tokenize hts
  have hliteral := fun v hv => Expr.isLiteral_of_mem_literals (v := v) hwell hv
  cases hd with
  | @sides ls rs lhs rhs t hl ht hr =>
    have hne : t.kind ≠ .number := by simp [ht]
    have hnumbers : lhs.numbers ++ rhs.numbers = Token.literals (ls ++ t :: rs) := by
      rw [Token.literals_append, Token.literals_cons hne, hl.numbers, hr.numbers]
    simp only [List.forall_mem_append, List.forall_mem_cons] at hwell
    refine ⟨_, lhs, rhs, hts, rfl, ⟨⟨hl.named hwell.1, hr.named hwell.2.2⟩, ?_, ⟨_, hl⟩, ⟨_, hr⟩⟩,
      hnumbers⟩
    rw [hnumbers]
    exact hliteral

/-- Where all literals of a formula are finite, the text of the equation that was read and that of
the simplified equation are read again and written as they were. Where one is past the largest
double, neither text can be read. -/
theorem texts_read_again_iff_finite {source : String} {e : Equation} (h : parse source = .ok e) :
    ∃ ts text simplified shown, Token.tokenize source = .ok ts ∧ e.checkedText = .ok text ∧
      e.checkedSimplify = .ok simplified ∧ simplified.checkedText = .ok shown ∧
      ((∀ v ∈ Token.literals ts, v.isFinite = true) → ReadsAgain text ∧ ReadsAgain shown) ∧
      ((∃ v ∈ Token.literals ts, v.isFinite = false) →
        (∃ error, parse text = .error error) ∧ ∃ error, parse shown = .error error) := by
  obtain ⟨ts, lhs, rhs, hts, rfl, hreadable, hliterals⟩ := exists_readable_of_parse h
  have hsimplified := hreadable.simplify
  have hkept : (lhs.simplify false).numbers ++ (rhs.simplify false).numbers =
      Token.literals ts := by
    rw [Expr.numbers_simplify, Expr.numbers_simplify, hliterals]
  refine ⟨ts, _, _, _, hts, hreadable.checkedText, hreadable.checkedSimplify,
    hsimplified.checkedText, fun hfinite => ⟨?_, ?_⟩, fun hinfinite => ⟨?_, ?_⟩⟩
  · exact hreadable.readsAgain (hliterals ▸ hfinite)
  · exact hsimplified.readsAgain (hkept ▸ hfinite)
  · exact hreadable.parse_eq_error (hliterals ▸ hinfinite)
  · exact hsimplified.parse_eq_error (hkept ▸ hinfinite)

/-- A literal past the largest double is read as infinity. -/
theorem parse_past_doubles :
    parse "y = 1e999" = .ok (ofSides (.var "y") (.number infinity)) := by
  have hread : Numeral.real? "1e999" = some infinity := by decide +kernel
  let literal : Token := ⟨.number, "1e999", 4, by decide +kernel⟩
  have htokens : Token.tokenize "y = 1e999" =
      .ok ([⟨.var, "y", 0, trivial⟩] ++ ⟨.equals, "=", 2, trivial⟩ :: [literal]) := by cbv
  have hy : Derives .unary [⟨.var, "y", 0, trivial⟩] (.var "y") := .primary (.var rfl)
  have hnumber : Derives .unary [literal] (.number infinity) :=
    .primary (.number ((Token.number?_of_kind rfl).trans hread))
  exact (parse_eq_ok _ _).mpr
    ⟨_, htokens, .sides hy.expression_of_unary rfl hnumber.expression_of_unary⟩

theorem texts_read_again_iff_finite_past_doubles :
    let e := ofSides (.var "y") (.number infinity)
    parse "y = 1e999" = .ok e ∧ ∃ ts text simplified shown,
      Token.tokenize "y = 1e999" = .ok ts ∧ e.checkedText = .ok text ∧
      e.checkedSimplify = .ok simplified ∧ simplified.checkedText = .ok shown ∧
      ((∀ v ∈ Token.literals ts, v.isFinite = true) → ReadsAgain text ∧ ReadsAgain shown) ∧
      ((∃ v ∈ Token.literals ts, v.isFinite = false) →
        (∃ error, parse text = .error error) ∧ ∃ error, parse shown = .error error) :=
  ⟨parse_past_doubles, texts_read_again_iff_finite parse_past_doubles⟩

/-- The text of an equation that was read cannot be read itself: the plus of `+Inf` is in its
way. -/
theorem text_not_read_again :
    ∃ e text, parse "y = 1e999" = .ok e ∧ e.checkedText = .ok text ∧ text = "y = +Inf" ∧
      parse text = .error ⟨text, .unexpectedToken ⟨.plus, "+", 4, trivial⟩⟩ :=
  ⟨_, "y = +Inf", parse_past_doubles, rfl, rfl, by cbv⟩

end Equation
end Isotherm
