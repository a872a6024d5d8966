import Isotherm.Proofs.Formula.Chains
import Isotherm.Proofs.Formula.RoundTrip

/-!
# Canonical text is a fixed point

A printable tree may nest its chains in any way, and the text does not show it: between the
parentheses it is a flat run of operands with what joins them. Reading nests the run anew. Whatever
tree comes back, it has the operands and the joints of the run, and so the same text.
-/

namespace Isotherm

/-! ## Links and their tokens -/

namespace Link

/-- The token is read as the link. -/
def Spells (t : Token) : Link → Prop
  | operator o => o ∈ Operator.known ∧ t.kind = o.kind
  | name n => t.kind = .identifier ∧ t.text = n

/-- A token is read as at most one link. -/
theorem Spells.unique {link link' : Link} {t : Token} (h : link.Spells t) (h' : link'.Spells t) :
    link = link' := by
  have hname : ∀ o ∈ Operator.known, o.kind ≠ .identifier := by decide
  have hkind : ∀ o ∈ Operator.known, ∀ o' ∈ Operator.known, o.kind = o'.kind → o = o' := by decide
  cases link with
  | operator o =>
    cases link' with
    | operator o' => rw [hkind o h.1 o' h'.1 (h.2.symm.trans h'.2)]
    | name n => exact absurd (h.2.symm.trans h'.1) (hname o h.1)
  | name n =>
    cases link' with
    | operator o => exact absurd (h'.2.symm.trans h.1) (hname o h'.1)
    | name n' => rw [← h.2, ← h'.2]

end Link

namespace Grammar

open Isotherm.Expr

/-- The joints of the chains build links. -/
theorem Joins.exists_link {c : Chain} {t : Token} {join : Expr → Expr → Expr}
    (h : Joins c t join) : ∃ link : Link, link.Spells t ∧ join = link.join := by
  cases h with
  | infixed hk => exact ⟨.name t.text, ⟨hk, rfl⟩, rfl⟩
  | plus hk => exact ⟨.operator .add, ⟨by decide, hk⟩, rfl⟩
  | minus hk => exact ⟨.operator .subtract, ⟨by decide, hk⟩, rfl⟩
  | multiply hk => exact ⟨.operator .multiply, ⟨by decide, hk⟩, rfl⟩
  | divide hk => exact ⟨.operator .divide, ⟨by decide, hk⟩, rfl⟩
  | modulus hk => exact ⟨.operator .remainder, ⟨by decide, hk⟩, rfl⟩

theorem mem_joints_of_spells {link : Link} {t : Token} (h : link.Spells t) :
    t.kind ∈ expression.joints := by
  cases link with
  | operator o =>
    have hall : ∀ o ∈ Operator.known, o.kind ∈ expression.joints := by decide
    rw [h.2]
    exact hall o h.1
  | name n =>
    rw [h.1]
    decide

/-- What goes on with a phrase of a chain joins at the chain, or goes on with its last operand. -/
theorem joins_or_mem_joints {c : Chain} {t : Token} (h : t.kind ∈ (Level.chain c).joints) :
    (∃ join, Joins c t join) ∨ t.kind ∈ c.operand.joints := by
  cases c with
  | infixed =>
    rcases List.mem_cons.mp h with h | h
    · exact .inl ⟨_, .infixed h⟩
    · exact .inr h
  | additive =>
    rcases List.mem_cons.mp h with h | h
    · exact .inl ⟨_, .plus h⟩
    rcases List.mem_cons.mp h with h | h
    · exact .inl ⟨_, .minus h⟩
    · exact .inr h
  | multiplicative =>
    rcases List.mem_cons.mp h with h | h
    · exact .inl ⟨_, .multiply h⟩
    rcases List.mem_cons.mp h with h | h
    · exact .inl ⟨_, .divide h⟩
    rcases List.mem_cons.mp h with h | h
    · exact .inl ⟨_, .modulus h⟩
    · exact .inr h

theorem joins_link_or_mem_joints {c : Chain} {link : Link} {t : Token} (ht : link.Spells t)
    (hk : t.kind ∈ (Level.chain c).joints) :
    Joins c t link.join ∨ t.kind ∈ c.operand.joints := by
  rcases joins_or_mem_joints hk with ⟨join, hj⟩ | hk
  · obtain ⟨link', ht', rfl⟩ := hj.exists_link
    rw [ht.unique ht']
    exact .inl hj
  · exact .inr hk

/-! ## Flat runs of operands -/

/-- Tokens that are operands with links between them, and a tree with these operands and links,
nested in any way. -/
inductive Flat : List Token → Expr → Prop where
  | operand {ts : List Token} {e : Expr} (h : Derives .unary ts e) : Flat ts e
  | join {ts us : List Token} {d a : Expr} {t : Token} {link : Link} (h : Flat ts d)
      (ht : link.Spells t) (ha : Derives .unary us a) : Flat (ts ++ t :: us) (link.join d a)
  | regroup {ts : List Token} {d e : Expr} (h : Flat ts d) (hd : d.leftNested = e.leftNested) :
      Flat ts e

/-- Two runs with a link between them are a run. -/
theorem Flat.append {ts us : List Token} {l r : Expr} {t : Token} (link : Link) (h : Flat ts l)
    (ht : link.Spells t) (h' : Flat us r) : Flat (ts ++ t :: us) (link.join l r) := by
  induction h' with
  | operand ha => exact .join h ht ha
  | @join us vs d a t' link' _ ht' ha ih =>
    have hjoin : Flat ((ts ++ t :: us) ++ t' :: vs) (link'.join (link.join l d) a) :=
      .join ih ht' ha
    rw [List.append_assoc, List.cons_append] at hjoin
    exact .regroup hjoin (leftNested_join_join link link' l d a).symm
  | regroup _ hd ih =>
    refine .regroup ih ?_
    rw [leftNested_join, leftNested_join, hd]

/-! ## A run is an expression -/

/-- One more operand behind a phrase makes a phrase of the same level, with one more operand in its
tree. Where the operand goes depends on how tightly the link binds. -/
theorem Derives.join {level : Level} {ts us : List Token} {e a : Expr} {t : Token} {link : Link}
    (h : Derives level ts e) (ht : link.Spells t) (hk : t.kind ∈ level.joints)
    (ha : Derives .unary us a) :
    ∃ e', Derives level (ts ++ t :: us) e' ∧ e'.leftNested = (link.join e a).leftNested := by
  induction h with
  | @operand c ts e h ih =>
    rcases joins_link_or_mem_joints ht hk with hj | hk
    · exact ⟨link.join e a, .chain (.operand h) hj (ha.operand_of_unary c), rfl⟩
    · obtain ⟨e', hd, hn⟩ := ih hk
      exact ⟨e', .operand hd, hn⟩
  | @chain c ls rs l r t' join' hl hj' hr _ ihr =>
    rcases joins_link_or_mem_joints ht hk with hj | hk
    · exact ⟨link.join (join' l r) a, .chain (.chain hl hj' hr) hj (ha.operand_of_unary c), rfl⟩
    · obtain ⟨r', hd, hn⟩ := ihr hk
      refine ⟨join' l r', ?_, ?_⟩
      · rw [List.append_assoc, List.cons_append]
        exact .chain hl hj' hd
      · obtain ⟨link', -, rfl⟩ := hj'.exists_link
        rw [leftNested_join, hn, ← leftNested_join, leftNested_join_join]
  | @base ts e h =>
    have hpower : t.kind = .power := by simpa [Level.joints] using hk
    obtain rfl : link = .operator .power := ht.unique ⟨by decide, hpower⟩
    exact ⟨.binary e .power a, .power h hpower (.base ha), rfl⟩
  | @power ls rs l r t' hl hk' hr _ ihr =>
    obtain ⟨r', hd, hn⟩ := ihr hk
    refine ⟨.binary l .power r', ?_, ?_⟩
    · rw [List.append_assoc, List.cons_append]
      exact .power hl hk' hd
    · show ((Link.operator .power).join l r').leftNested = _
      rw [leftNested_join, hn, ← leftNested_join, leftNested_join_join]
      rfl
  | primary | negateGroup | negate | number | var | call | call2 | group => cases hk

/-- Every run of operands is an expression with the same operands and links. -/
theorem Flat.regroups {ts : List Token} {d : Expr} (h : Flat ts d) :
    ∃ e, Derives expression ts e ∧ e.leftNested = d.leftNested := by
  induction h with
  | operand h => exact ⟨_, h.expression_of_unary, rfl⟩
  | join _ ht ha ih =>
    obtain ⟨e, hd, hn⟩ := ih
    obtain ⟨e', hd', hn'⟩ := hd.join ht (mem_joints_of_spells ht) ha
    refine ⟨e', hd', ?_⟩
    rw [hn', leftNested_join, leftNested_join, hn]
  | regroup _ hd ih =>
    obtain ⟨e, he, hn⟩ := ih
    exact ⟨e, he, hn.trans hd⟩

theorem Flat.derives {ts : List Token} {d : Expr} (h : Flat ts d) :
    ∃ e, Derives expression ts e ∧ e.chars = d.chars := by
  obtain ⟨e, hd, hn⟩ := h.regroups
  exact ⟨e, hd, chars_eq_of_leftNested hn⟩

/-- The tokens of a printable tree are a run with the operands and links of the tree. -/
theorem flat_tokens {e : Expr} (h : e.Printable) (position : Nat) :
    Flat (e.tokens position) e := by
  -- Inside parentheses the run is read first; the operand around it then has another nesting.
  induction e generalizing position with
  | number v => exact .operand (.primary (derives_number h position))
  | var name => exact .operand (.primary (.var rfl))
  | binary l o r ihl ihr =>
    exact .append (.operator o) (ihl h.1 position) ⟨h.2.1, rfl⟩ (ihr h.2.2 _)
  | negate e ih =>
    obtain ⟨e', hd, hn⟩ := (ih h (position + 1 + 1)).regroups
    exact .regroup (.operand (.negateGroup rfl (.primary (.group rfl hd rfl))))
      (congrArg Expr.negate hn)
  | brackets e ih =>
    obtain ⟨e', hd, hn⟩ := (ih h (position + 1)).regroups
    exact .regroup (.operand (.primary (.group rfl hd rfl))) (congrArg Expr.brackets hn)
  | call name e ih =>
    obtain ⟨e', hd, hn⟩ := (ih h.2 (position + name.toList.length + 1)).regroups
    exact .regroup (.operand (.primary (.call rfl rfl hd rfl))) (congrArg (Expr.call name) hn)
  | call2 name l r infixed ihl ihr =>
    cases infixed with
    | true => exact .append (.name name) (ihl h.2.1 position) ⟨rfl, rfl⟩ (ihr h.2.2 _)
    | false =>
      let comma := position + name.toList.length + 1 + l.chars.length
      obtain ⟨l', hdl, hnl⟩ := (ihl h.2.1 (position + name.toList.length + 1)).regroups
      obtain ⟨r', hdr, hnr⟩ := (ihr h.2.2 (comma + 1 + 1)).regroups
      refine .regroup (.operand (.primary (.call2 rfl rfl hdl rfl hdr rfl))) ?_
      simp only [leftNested, hnl, hnr]
  | foreign => exact h.elim

/-- No tree that was read has a foreign node. -/
theorem Derives.hasForeign {level : Level} {ts : List Token} {e : Expr} (h : Derives level ts e) :
    e.hasForeign = false := by
  induction h with
  | operand _ ih | base _ ih | primary _ ih | negateGroup _ _ ih => exact ih
  | negate _ _ _ ih | call _ _ _ _ ih | group _ _ _ ih => exact ih
  | chain _ ht _ ihl ihr => cases ht <;> simp [Expr.hasForeign, ihl, ihr]
  | power _ _ _ ihl ihr => simp [Expr.hasForeign, ihl, ihr]
  | number | var => rfl
  | call2 _ _ _ _ _ _ ihl ihr => simp [Expr.hasForeign, ihl, ihr]

end Grammar

namespace Equation

open Grammar

/-- The text of any printable equation is read, and the equation that is read has the same text. -/
theorem checkedText_of_parse_checkedText {lhs rhs : Expr} (hl : lhs.Printable)
    (hr : rhs.Printable) :
    ∃ text e, (ofSides lhs rhs).checkedText = .ok text ∧ parse text = .ok e ∧
      e.checkedText = .ok text := by
  obtain ⟨l, hdl, hcl⟩ := (flat_tokens hl 0).derives
  obtain ⟨r, hdr, hcr⟩ := (flat_tokens hr (lhs.chars.length + 1 + 1 + 1)).derives
  have hread : parse (textOfSides lhs rhs) = .ok (ofSides l r) :=
    (parse_textOfSides hl hr _).mpr (.sides hdl rfl hdr)
  have htext : textOfSides l r = textOfSides lhs rhs := by
    rw [textOfSides, textOfSides, hcl, hcr]
  refine ⟨textOfSides lhs rhs, ofSides l r, ?_, hread, ?_⟩
  · exact checkedText_ofSides hl.hasForeign hr.hasForeign
  · rw [checkedText_ofSides hdl.hasForeign hdr.hasForeign, htext]

/-- The tree is a product of a sum without brackets; its text is read as a sum with a product. -/
theorem checkedText_of_parse_checkedText_product :
    let lhs : Expr := .binary (.binary (.var "x") .add (.var "y")) .multiply (.number 0.5)
    let rhs : Expr := .negate (.call2 "Atan2" (.var "x") (.var "T") true)
    (lhs.Printable ∧ rhs.Printable) ∧
      ∃ text e, (ofSides lhs rhs).checkedText = .ok text ∧ parse text = .ok e ∧
        e.checkedText = .ok text := by
  intro lhs rhs
  have hprintable : lhs.Printable ∧ rhs.Printable := by decide +kernel
  exact ⟨hprintable, checkedText_of_parse_checkedText hprintable.1 hprintable.2⟩

end Equation
end Isotherm
