import Isotherm.Proofs.Formula.Language
import Mathlib

/-!
# Longest matches

The tokens of a formula account for all its characters. Each is the longest match of its pattern
where it stands, they follow one another without overlap, and only blanks are left between them. One
list of tokens at most covers a formula so, and there is none exactly where some character behind
the tokens so far is no blank and starts no token.
-/

namespace Isotherm

open Text

namespace Text

/-- A run at the front of a text is the whole run there or a part of it; only the whole run has
anything else behind it. -/
theorem run_isPrefix {p : Char → Bool} {run rest cs : List Char} (h : ∀ c ∈ run, p c = true)
    (hr : ∀ c ∈ rest.head?, p c = false) (hp : run ++ rest <+: cs) :
    (run = cs.takeWhile p ∧ rest <+: cs.dropWhile p) ∨
      (rest = [] ∧ run.length ≤ (cs.takeWhile p).length) := by
  obtain ⟨behind, rfl⟩ := hp
  cases rest with
  | nil =>
    right
    rw [List.append_nil, List.takeWhile_append_of_pos h, List.length_append]
    exact ⟨rfl, Nat.le_add_right _ _⟩
  | cons c rest =>
    left
    have hhead : ∀ d ∈ (c :: rest ++ behind).head?, p d = false := by simpa using hr
    rw [List.append_assoc, takeWhile_run h hhead, dropWhile_run h hhead]
    exact ⟨rfl, List.prefix_append _ _⟩

end Text

namespace Numeral

/-! ## The longest numeral -/

theorem length_exponentChars_le {n m : Numeral} (h : n.WellFormed) {cs : List Char}
    (hp : n.exponentChars <+: cs) (hm : m.exponent = (takeExponent cs).1) :
    n.exponentChars.length ≤ m.exponentChars.length := by
  cases hn : n.exponent with
  | none => simp [exponentChars, hn]
  | some e =>
    obtain ⟨letter, sign, digits⟩ := e
    obtain ⟨hne, hall⟩ := h.digits _ hn
    have hletter : (letter == 'e' || letter == 'E') = true := by simpa using h.letter _ hn
    have hchars : n.exponentChars = letter :: (sign.toList ++ digits) := by
      simp only [exponentChars, hn]
    obtain ⟨behind, rfl⟩ := hp
    have hrun : (digits ++ behind).takeWhile isDigit = digits ++ behind.takeWhile isDigit :=
      List.takeWhile_append_of_pos hall
    rw [hchars, List.cons_append, takeExponent, if_pos hletter,
      takeSign_append (h.sign _ hn) hne hall] at hm
    simp only [hrun] at hm
    rw [if_neg (by simp [hne])] at hm
    rw [hchars]
    simp only [exponentChars, hm, List.length_cons, List.length_append]
    omega

/-- The fraction at the front of a text is the one taken there or shorter; only the whole one has an
exponent behind it. -/
theorem fraction_isPrefix {n : Numeral} (h : n.WellFormed) {cs : List Char}
    (hp : n.fractionChars ++ n.exponentChars <+: cs) :
    (n.fraction = (takeFraction cs).1 ∧ n.exponentChars <+: (takeFraction cs).2) ∨
      (n.exponentChars = [] ∧ n.fraction.length ≤ (takeFraction cs).1.length) := by
  obtain ⟨behind, rfl⟩ := hp
  by_cases hexp : n.exponentChars = []
  · refine .inr ⟨hexp, ?_⟩
    rw [hexp, List.append_nil]
    unfold fractionChars
    split
    next hf => simp [List.isEmpty_iff.mp hf]
    next hf =>
      have hrun : (n.fraction ++ behind).takeWhile isDigit =
          n.fraction ++ behind.takeWhile isDigit := List.takeWhile_append_of_pos h.fraction
      have hne : n.fraction ≠ [] := by simpa using hf
      rw [List.cons_append, takeFraction, hrun, if_neg (by simp [hne]), List.length_append]
      exact Nat.le_add_right _ _
  · left
    have hhead : ∀ c ∈ (n.exponentChars ++ behind).head?, isDigit c = false ∧ c ≠ '.' := by
      intro c hc
      rw [List.head?_append_of_ne_nil _ hexp] at hc
      exact head_exponentChars h [] (by simp [Ends]) c (by simpa using hc)
    rw [List.append_assoc, takeFraction_append h hhead]
    exact ⟨rfl, List.prefix_append _ _⟩

theorem length_fractionChars (n : Numeral) :
    n.fractionChars.length = if n.fraction.isEmpty then 0 else n.fraction.length + 1 := by
  unfold fractionChars
  split <;> simp

/-- No numeral at the front of a text is longer than the one taken there. -/
theorem length_chars_le {n : Numeral} (h : n.WellFormed) {cs : List Char} (hp : n.chars <+: cs) :
    n.chars.length ≤ (take cs).1.chars.length := by
  have hwhole : (take cs).1.whole = cs.takeWhile isDigit := rfl
  have hfraction : (take cs).1.fraction = (takeFraction (cs.dropWhile isDigit)).1 := rfl
  have hexponent : (take cs).1.exponent =
    (takeExponent (takeFraction (cs.dropWhile isDigit)).2).1 := rfl
  have hlast := head_exponentChars h [] (by simp [Ends])
  have hhead := head_fractionChars (n := n) fun c hc => (hlast c hc).1
  rw [List.append_nil] at hhead
  rw [chars_eq, List.append_assoc] at hp
  simp only [chars_eq, List.length_append, hwhole]
  rcases run_isPrefix h.whole hhead hp with ⟨hw, hrest⟩ | ⟨hnil, hle⟩
  · rcases fraction_isPrefix h hrest with ⟨hf, hexp⟩ | ⟨hnil, hle⟩
    · have hlen := length_exponentChars_le h hexp hexponent
      have heq : n.fractionChars = (take cs).1.fractionChars := by
        unfold fractionChars
        rw [hf, hfraction]
      rw [← hw, heq]
      omega
    · rw [← hfraction] at hle
      rw [← hw, hnil, length_fractionChars, length_fractionChars]
      simp only [List.isEmpty_iff, ← List.length_eq_zero_iff, List.length_nil]
      split <;> split <;> omega
  · have hnone : n.fractionChars.length + n.exponentChars.length = 0 := by
      rw [← List.length_append, hnil, List.length_nil]
    omega

end Numeral

namespace Token

/-! ## Patterns -/

/-- The pattern of a kind of token, met by the whole of `text`. Variables are names like any
other. -/
def Matches (kind : TokenKind) (text : List Char) : Prop :=
  kind = .number ∧ (∃ n : Numeral, n.WellFormed ∧ n.chars = text) ∨
    (kind = .identifier ∨ kind = .var) ∧ IsName (String.ofList text) ∨
    ∃ c, TokenKind.ofMark? c = some kind ∧ text = [c]

/-- The longest text at the front of `cs` that meets the pattern of a kind. -/
structure Longest (kind : TokenKind) (text cs : List Char) : Prop where
  pattern : Matches kind text
  front : text <+: cs
  longest : ∀ other, Matches kind other → other <+: cs → other.length ≤ text.length

theorem isName_ofList {text : List Char} (h : IsName (String.ofList text)) :
    ∃ c cs, text = c :: cs ∧ startsWord c = true ∧ ∀ d ∈ cs, continuesWord d = true := by
  obtain ⟨c, cs, htext, hstart, hall⟩ := h
  rw [String.toList_ofList] at htext
  exact ⟨c, cs, htext, hstart, hall⟩

/-- A token is recognised by its first character. -/
theorem Matches.head {kind : TokenKind} {text : List Char} (h : Matches kind text) :
    ∃ c cs, text = c :: cs ∧ (kind = .number ∧ isDigit c = true ∨
      (kind = .identifier ∨ kind = .var) ∧ startsWord c = true ∨
      TokenKind.ofMark? c = some kind ∧ cs = []) := by
  rcases h with ⟨hk, n, hn, rfl⟩ | ⟨hk, hname⟩ | ⟨c, hmark, rfl⟩
  · obtain ⟨c, cs, hcs, hc⟩ := hn.head_chars
    exact ⟨c, cs, hcs, .inl ⟨hk, hc⟩⟩
  · obtain ⟨c, cs, hcs, hc, -⟩ := isName_ofList hname
    exact ⟨c, cs, hcs, .inr (.inl ⟨hk, hc⟩)⟩
  · exact ⟨c, [], rfl, .inr (.inr ⟨hmark, rfl⟩)⟩

theorem Matches.head_front {kind : TokenKind} {c : Char} {text cs : List Char}
    (h : Matches kind text) (hp : text <+: c :: cs) :
    kind = .number ∧ isDigit c = true ∨ (kind = .identifier ∨ kind = .var) ∧ startsWord c = true ∨
      TokenKind.ofMark? c = some kind ∧ text = [c] := by
  obtain ⟨d, ds, rfl, hd⟩ := h.head
  obtain rfl := (List.cons_prefix_cons.mp hp).1
  rcases hd with hd | hd | ⟨hmark, rfl⟩
  · exact .inl hd
  · exact .inr (.inl hd)
  · exact .inr (.inr ⟨hmark, rfl⟩)

theorem Matches.not_isBlank {kind : TokenKind} {c : Char} {text cs : List Char}
    (h : Matches kind text) (hp : text <+: c :: cs) : isBlank c = false := by
  rcases h.head_front hp with ⟨-, hd⟩ | ⟨-, hs⟩ | ⟨hm, -⟩
  · exact isBlank_of_isDigit hd
  · exact (not_isDigit_of_startsWord hs).2
  · exact (not_startsWord_of_ofMark? hm).2.2

theorem Matches.ne_nil {kind : TokenKind} {text : List Char} (h : Matches kind text) :
    text ≠ [] := by
  obtain ⟨c, cs, rfl, -⟩ := h.head
  exact List.cons_ne_nil c cs

/-- Two kinds of token that can start at one place are the same, or both are names. -/
theorem Matches.kind_eq_or {kind kind' : TokenKind} {c : Char} {text text' cs cs' : List Char}
    (h : Matches kind text) (hp : text <+: c :: cs) (h' : Matches kind' text')
    (hp' : text' <+: c :: cs') :
    kind' = kind ∨ (kind = .identifier ∨ kind = .var) ∧ (kind' = .identifier ∨ kind' = .var) := by
  rcases h.head_front hp with ⟨hk, hd⟩ | ⟨hk, hs⟩ | ⟨hm, -⟩ <;>
    rcases h'.head_front hp' with ⟨hk', hd'⟩ | ⟨hk', hs'⟩ | ⟨hm', -⟩
  · exact .inl (hk'.trans hk.symm)
  · simp [not_isDigit_of_startsWord hs'] at hd
  · simp [not_startsWord_of_ofMark? hm'] at hd
  · simp [not_isDigit_of_startsWord hs] at hd'
  · exact .inr ⟨hk, hk'⟩
  · simp [not_startsWord_of_ofMark? hm'] at hs
  · simp [not_startsWord_of_ofMark? hm] at hd'
  · simp [not_startsWord_of_ofMark? hm] at hs'
  · exact .inl (Option.some.inj (hm'.symm.trans hm))

theorem matches_name_iff {kind : TokenKind} (hk : kind = .identifier ∨ kind = .var)
    (text : List Char) : Matches kind text ↔ IsName (String.ofList text) := by
  have hnumber : kind ≠ .number := by rcases hk with rfl | rfl <;> decide
  have hmark : ∀ c, TokenKind.ofMark? c ≠ some kind := by
    intro c hc
    obtain ⟨-, hv, hi⟩ := ofMark?_ne hc
    exact hk.elim hi hv
  simp [Matches, hk, hnumber, hmark]

/-- What a token is: the longest match of its pattern, and a variable exactly where its name is
one. -/
structure Standing (kind : TokenKind) (text cs : List Char) : Prop where
  longest : Longest kind text cs
  var_iff : kind = .var ↔ String.ofList text ∈ variableNames

/-- At most one token stands at a place. -/
theorem Standing.unique {kind kind' : TokenKind} {c : Char} {text text' cs : List Char}
    (h : Standing kind text (c :: cs)) (h' : Standing kind' text' (c :: cs)) :
    kind' = kind ∧ text' = text := by
  have hkinds := h.longest.pattern.kind_eq_or h.longest.front h'.longest.pattern h'.longest.front
  have hpattern : ∀ other, Matches kind other ↔ Matches kind' other := by
    rcases hkinds with rfl | ⟨hk, hk'⟩
    · exact fun _ => Iff.rfl
    · exact fun other => (matches_name_iff hk other).trans (matches_name_iff hk' other).symm
  have hlength : text'.length = text.length :=
    Nat.le_antisymm
      (h.longest.longest _ ((hpattern text').mpr h'.longest.pattern) h'.longest.front)
      (h'.longest.longest _ ((hpattern text).mp h.longest.pattern) h.longest.front)
  have htext : text' = text :=
    (List.prefix_of_prefix_length_le h'.longest.front h.longest.front
      hlength.le).eq_of_length hlength
  subst htext
  refine ⟨?_, rfl⟩
  rcases hkinds with hk | ⟨hk, hk'⟩
  · exact hk
  · have hvar : kind = .var ↔ kind' = .var := h.var_iff.trans h'.var_iff.symm
    rcases hk with rfl | rfl <;> rcases hk' with rfl | rfl <;> simp_all

/-! ## The token that is cut off -/

theorem ofMark?_text {c : Char} {kind : TokenKind} (h : TokenKind.ofMark? c = some kind) :
    kind = .var ↔ String.ofList [c] ∈ variableNames := by
  refine iff_of_false (ofMark?_ne h).2.1 ?_
  intro hname
  obtain ⟨d, ds, hd, hstart, -⟩ := isName_ofList (isName_of_mem_variableNames hname)
  obtain rfl : c = d := (List.cons.inj hd).1
  simp [not_startsWord_of_ofMark? h] at hstart

/-- The token that is cut off stands there. -/
theorem standing_of_lexeme? {c : Char} {cs text rest : List Char} {kind : TokenKind}
    (h : lexeme? c cs = some (kind, text, rest)) : Standing kind text (c :: cs) := by
  have hfront : text <+: c :: cs := ⟨rest, append_of_lexeme? h⟩
  unfold lexeme? at h
  split at h
  next hdigit =>
    obtain ⟨rfl, rfl, -⟩ : .number = kind ∧ _ = text ∧ _ := by simpa using h
    have hwell := Numeral.wellFormed_take hdigit cs
    refine ⟨⟨.inl ⟨rfl, _, hwell, rfl⟩, hfront, ?_⟩, ?_⟩
    · intro other hother hp
      rcases hother with ⟨-, n, hn, rfl⟩ | ⟨hk, -⟩ | ⟨d, hmark, -⟩
      · exact Numeral.length_chars_le hn hp
      · rcases hk with hk | hk <;> cases hk
      · exact absurd rfl (ofMark?_ne hmark).1
    · refine iff_of_false (by decide) ?_
      intro hname
      obtain ⟨d, ds, hd, hstart, -⟩ := isName_ofList (isName_of_mem_variableNames hname)
      rw [hd] at hfront
      obtain rfl := (List.cons_prefix_cons.mp hfront).1
      simp [not_isDigit_of_startsWord hstart] at hdigit
  next =>
    split at h
    next hstart =>
      obtain ⟨rfl, rfl, -⟩ : _ = kind ∧ _ = text ∧ _ := by simpa using h
      have hkind : TokenKind.ofWord (c :: cs.takeWhile continuesWord) = .identifier ∨
          TokenKind.ofWord (c :: cs.takeWhile continuesWord) = .var := (ofWord_cases _).symm
      have hname : IsName (String.ofList (c :: cs.takeWhile continuesWord)) :=
        ⟨c, _, String.toList_ofList, hstart, fun d hd => of_mem_takeWhile hd⟩
      refine ⟨⟨(matches_name_iff hkind _).mpr hname, hfront, ?_⟩, ?_⟩
      · intro other hother hp
        obtain ⟨d, ds, rfl, -, hall⟩ := isName_ofList ((matches_name_iff hkind other).mp hother)
        have hrun : ds ++ [] <+: cs := by simpa using (List.cons_prefix_cons.mp hp).2
        have hle := run_isPrefix hall (by simp) hrun
        simp only [List.length_cons]
        rcases hle with ⟨hds, -⟩ | ⟨-, hle⟩
        · rw [← hds]
        · omega
      · have hvar := ofWord_eq_var_iff (String.ofList (c :: cs.takeWhile continuesWord))
        rwa [String.toList_ofList] at hvar
    next =>
      obtain ⟨kind', hmark, rfl, rfl, -⟩ : ∃ k, _ ∧ k = kind ∧ _ = text ∧ _ := by simpa using h
      refine ⟨⟨.inr (.inr ⟨c, hmark, rfl⟩), hfront, ?_⟩, ofMark?_text hmark⟩
      intro other hother hp
      obtain ⟨hnumber, hvar, hname⟩ := ofMark?_ne hmark
      rcases hother.head_front hp with ⟨hk, -⟩ | ⟨hk, -⟩ | ⟨-, rfl⟩
      · exact absurd hk hnumber
      · exact absurd hk (by simp [hname, hvar])
      · rfl

/-- Where no token is cut off, none starts. -/
theorem not_matches_of_lexeme? {c : Char} {cs : List Char} (h : lexeme? c cs = none)
    {kind : TokenKind} {text : List Char} (hm : Matches kind text) : ¬text <+: c :: cs := by
  intro hp
  unfold lexeme? at h
  split at h
  · cases h
  next hdigit =>
    split at h
    · cases h
    next hstart =>
      rw [Option.map_eq_none_iff] at h
      rcases hm.head_front hp with ⟨-, hd⟩ | ⟨-, hs⟩ | ⟨hmark, -⟩
      · exact hdigit hd
      · exact hstart hs
      · rw [h] at hmark
        cases hmark

/-! ## Covering a formula -/

/-- The place behind the last character of a token. -/
def stop (t : Token) : Nat :=
  t.position + t.text.length

/-- The tokens account for the characters of `source` from `start` up to `stop`: each stands at its
position, they come in order without overlap, and every other character is a blank. -/
structure Covers (source : List Char) (start stop : Nat) (ts : List Token) : Prop where
  le : start ≤ stop
  inside : ∀ t ∈ ts, start ≤ t.position ∧ t.position < t.stop ∧ t.stop ≤ stop
  ordered : ts.Pairwise fun t u => t.stop ≤ u.position
  standing : ∀ t ∈ ts, Standing t.kind t.text.toList (source.drop t.position)
  blank : ∀ i c, start ≤ i → i < stop → source[i]? = some c →
    (∀ t ∈ ts, ¬(t.position ≤ i ∧ i < t.stop)) → isBlank c = true

/-- A character that is no blank and starts no token. -/
structure StuckAt (source : List Char) (c : Char) (position : Nat) : Prop where
  here : source[position]? = some c
  not_blank : isBlank c = false
  not_matches : ∀ kind text, Matches kind text → ¬text <+: source.drop position

section

variable {source cs : List Char} {c : Char} {start : Nat}

theorem getElem?_of_drop (h : source.drop start = c :: cs) : source[start]? = some c := by
  have hhead : (source.drop start)[0]? = source[start]? := by rw [List.getElem?_drop, Nat.add_zero]
  rw [h] at hhead
  exact hhead.symm

theorem drop_succ_of_drop (h : source.drop start = c :: cs) : source.drop (start + 1) = cs := by
  rw [← List.drop_drop, h]
  rfl

theorem lt_length_of_drop (h : source.drop start = c :: cs) : start < source.length := by
  have hlen := congrArg List.length h
  rw [List.length_drop, List.length_cons] at hlen
  omega

theorem drop_add_of_lexeme? {text rest : List Char} {kind : TokenKind}
    (h : source.drop start = c :: cs) (hl : lexeme? c cs = some (kind, text, rest)) :
    source.drop (start + text.length) = rest ∧ start + text.length ≤ source.length := by
  have happend := append_of_lexeme? hl
  constructor
  · rw [← List.drop_drop, h, ← happend, List.drop_left]
  · have hlt := lt_length_of_drop h
    have hlen := congrArg List.length h
    have happ := congrArg List.length happend
    rw [List.length_drop] at hlen
    rw [List.length_append] at happ
    omega

theorem covers_self (source : List Char) (start : Nat) : Covers source start start [] where
  le := Nat.le_refl start
  inside := by simp
  ordered := List.Pairwise.nil
  standing := by simp
  blank := by
    intro i c hi hlt
    omega

theorem Covers.eq_nil {ts : List Token} (h : Covers source start start ts) : ts = [] := by
  rw [List.eq_nil_iff_forall_not_mem]
  intro t ht
  have := h.inside t ht
  omega

/-- A blank belongs to no token. -/
theorem covers_blank (hcs : source.drop start = c :: cs) (hb : isBlank c = true) {stop : Nat}
    (hlt : start < stop) (ts : List Token) :
    Covers source start stop ts ↔ Covers source (start + 1) stop ts := by
  constructor
  · intro h
    refine ⟨hlt, ?_, h.ordered, h.standing, fun i d hi => h.blank i d (by omega)⟩
    intro t ht
    obtain ⟨hle, hinside⟩ := h.inside t ht
    have hne : t.position ≠ start := by
      intro heq
      have hlongest := (h.standing t ht).longest
      rw [heq, hcs] at hlongest
      rw [hlongest.pattern.not_isBlank hlongest.front] at hb
      cases hb
    exact ⟨by omega, hinside⟩
  · intro h
    refine ⟨by omega, ?_, h.ordered, h.standing, ?_⟩
    · intro t ht
      obtain ⟨hle, hinside⟩ := h.inside t ht
      exact ⟨by omega, hinside⟩
    · intro i d hi hstop hd hout
      by_cases heq : i = start
      · subst heq
        obtain rfl : c = d := Option.some.inj ((getElem?_of_drop hcs).symm.trans hd)
        exact hb
      · exact h.blank i d (by omega) hstop hd hout

/-- A character that is no blank starts the first of the tokens that cover it. -/
theorem Covers.head {stop : Nat} {ts : List Token} (h : Covers source start stop ts)
    (hlt : start < stop) (hc : source[start]? = some c) (hb : isBlank c = false) :
    ∃ t us, ts = t :: us ∧ t.position = start ∧ Covers source t.stop stop us := by
  have hcovered : ∃ t ∈ ts, t.position ≤ start ∧ start < t.stop := by
    by_contra hnone
    have hblank := h.blank start c (Nat.le_refl _) hlt hc (by simpa using hnone)
    rw [hb] at hblank
    cases hblank
  obtain ⟨t, ht, hle, hstop⟩ := hcovered
  cases ts with
  | nil => cases ht
  | cons u us =>
    obtain ⟨hfirst, hordered⟩ := List.pairwise_cons.mp h.ordered
    obtain ⟨hinside, hrest⟩ := List.forall_mem_cons.mp h.inside
    have hut : t = u := by
      rcases List.mem_cons.mp ht with heq | hmem
      · exact heq
      · have := hfirst t hmem
        omega
    subst hut
    obtain ⟨-, hstanding⟩ := List.forall_mem_cons.mp h.standing
    refine ⟨t, us, rfl, by omega, hinside.2.2, ?_, hordered, hstanding, ?_⟩
    · intro v hv
      exact ⟨hfirst v hv, (hrest v hv).2⟩
    · intro i d hi hlt hd hout
      refine h.blank i d (by omega) hlt hd (List.forall_mem_cons.mpr ⟨?_, hout⟩)
      omega

/-- The first token is the one that is cut off, and the others cover what is behind it. -/
theorem covers_lexeme {text rest : List Char} {kind : TokenKind}
    (hcs : source.drop start = c :: cs) (hl : lexeme? c cs = some (kind, text, rest)) {stop : Nat}
    (hlt : start < stop) (ts : List Token) :
    Covers source start stop ts ↔
      ∃ us, ts = ⟨kind, String.ofList text, start, admits_of_lexeme? hl⟩ :: us ∧
        Covers source (start + text.length) stop us := by
  have hstand := standing_of_lexeme? hl
  constructor
  · intro h
    obtain ⟨t, us, rfl, hpos, hus⟩ := h.head hlt (getElem?_of_drop hcs)
      (hstand.longest.pattern.not_isBlank hstand.longest.front)
    have ht := h.standing t List.mem_cons_self
    rw [hpos, hcs] at ht
    obtain ⟨hkind, htext⟩ := hstand.unique ht
    have heq : t = ⟨kind, String.ofList text, start, admits_of_lexeme? hl⟩ := by
      cases t
      simp_all [← String.toList_inj]
    refine ⟨us, by rw [heq], ?_⟩
    rw [heq] at hus
    simpa [Token.stop] using hus
  · rintro ⟨us, rfl, hus⟩
    have hpos : 0 < text.length := List.length_pos_of_ne_nil hstand.longest.pattern.ne_nil
    have hle := hus.le
    constructor
    · omega
    · refine List.forall_mem_cons.mpr ⟨?_, ?_⟩
      · simp only [Token.stop, String.length_ofList]
        omega
      · intro t ht
        obtain ⟨hstart, hinside⟩ := hus.inside t ht
        exact ⟨by omega, hinside⟩
    · refine List.pairwise_cons.mpr ⟨?_, hus.ordered⟩
      intro t ht
      simpa [Token.stop] using (hus.inside t ht).1
    · refine List.forall_mem_cons.mpr ⟨?_, hus.standing⟩
      simpa [hcs] using hstand
    · intro i d hi hi' hd hout
      obtain ⟨hhead, hrest⟩ := List.forall_mem_cons.mp hout
      simp only [Token.stop, String.length_ofList] at hhead
      exact hus.blank i d (by omega) hi' hd hrest

/-- Nothing covers a text beyond a character that starts no token. -/
theorem Covers.stop_eq {stop : Nat} {ts : List Token} (h : Covers source start stop ts)
    (hcs : source.drop start = c :: cs) (hb : isBlank c = false) (hl : lexeme? c cs = none) :
    stop = start := by
  by_contra hne
  have hlt : start < stop := by
    have := h.le
    omega
  obtain ⟨t, us, rfl, hpos, -⟩ := h.head hlt (getElem?_of_drop hcs) hb
  have hlongest := (h.standing t List.mem_cons_self).longest
  rw [hpos, hcs] at hlongest
  exact not_matches_of_lexeme? hl hlongest.pattern hlongest.front

/-- The tokens of a scan are those that cover the text up to its end. -/
theorem scan_eq_ok_iff (hcs : source.drop start = cs) (hstart : start ≤ source.length)
    (ts : List Token) : scan cs start = .ok ts ↔ Covers source start source.length ts := by
  induction cs, start using scan.induct generalizing ts with
  | case1 start =>
    have hend : start = source.length := by
      have := List.drop_eq_nil_iff.mp hcs
      omega
    subst hend
    rw [scan_nil]
    constructor
    · intro h
      cases h
      exact covers_self source _
    · intro h
      rw [h.eq_nil]
  | case2 start c cs hb ih =>
    have hlt := lt_length_of_drop hcs
    rw [scan_blank hb, ih (drop_succ_of_drop hcs) hlt, covers_blank hcs hb hlt]
  | case3 start c cs hb hl =>
    rw [scan_stuck (by simpa using hb) hl]
    refine iff_of_false (by simp) ?_
    intro h
    have heq := h.stop_eq hcs (by simpa using hb) hl
    have hlt := lt_length_of_drop hcs
    omega
  | case4 start c cs hb kind text rest hl _ ih =>
    obtain ⟨hrest, hbound⟩ := drop_add_of_lexeme? hcs hl
    rw [scan_lexeme (by simpa using hb) hl, covers_lexeme hcs hl (lt_length_of_drop hcs)]
    simp only [← ih hrest hbound]
    cases scan rest (start + text.length) <;> simp [Except.map, eq_comm]

/-- A scan stops at the character that no list of tokens gets past. -/
theorem scan_eq_error_iff (hcs : source.drop start = cs) (hstart : start ≤ source.length)
    (d : Char) (position : Nat) :
    scan cs start = .error (d, position) ↔
      StuckAt source d position ∧ ∃ ts, Covers source start position ts := by
  induction cs, start using scan.induct with
  | case1 start =>
    have hend := List.drop_eq_nil_iff.mp hcs
    rw [scan_nil]
    refine iff_of_false (by simp) ?_
    intro h
    obtain ⟨⟨hhere, -, -⟩, ts, hts⟩ := h
    obtain ⟨hlt, -⟩ := List.getElem?_eq_some_iff.mp hhere
    have hle := hts.le
    omega
  | case2 start c cs hb ih =>
    rw [scan_blank hb, ih (drop_succ_of_drop hcs) (lt_length_of_drop hcs)]
    apply and_congr_right
    intro hstuck
    have hne : position ≠ start := by
      intro heq
      subst heq
      obtain rfl : c = d := Option.some.inj ((getElem?_of_drop hcs).symm.trans hstuck.here)
      simp [hstuck.not_blank] at hb
    constructor
    · intro h
      obtain ⟨ts, hts⟩ := h
      have hle := hts.le
      exact ⟨ts, (covers_blank hcs hb (by omega) ts).mpr hts⟩
    · intro h
      obtain ⟨ts, hts⟩ := h
      have hle := hts.le
      exact ⟨ts, (covers_blank hcs hb (by omega) ts).mp hts⟩
  | case3 start c cs hb hl =>
    have hblank : isBlank c = false := by simpa using hb
    rw [scan_stuck hblank hl]
    constructor
    · intro h
      obtain ⟨rfl, rfl⟩ : c = d ∧ start = position := by simpa using h
      refine ⟨⟨getElem?_of_drop hcs, hblank, ?_⟩, [], covers_self source start⟩
      intro kind text hm
      rw [hcs]
      exact not_matches_of_lexeme? hl hm
    · intro h
      obtain ⟨hstuck, ts, hts⟩ := h
      obtain rfl := hts.stop_eq hcs hblank hl
      obtain rfl : c = d := Option.some.inj ((getElem?_of_drop hcs).symm.trans hstuck.here)
      rfl
  | case4 start c cs hb kind text rest hl _ ih =>
    obtain ⟨hrest, hbound⟩ := drop_add_of_lexeme? hcs hl
    have hlongest := (standing_of_lexeme? hl).longest
    have hmap : scan (c :: cs) start = .error (d, position) ↔
        scan rest (start + text.length) = .error (d, position) := by
      rw [scan_lexeme (by simpa using hb) hl]
      cases scan rest (start + text.length) <;> simp [Except.map]
    rw [hmap, ih hrest hbound]
    apply and_congr_right
    intro hstuck
    have hne : position ≠ start := by
      intro heq
      subst heq
      apply hstuck.not_matches kind text hlongest.pattern
      rw [hcs]
      exact hlongest.front
    constructor
    · intro h
      obtain ⟨ts, hts⟩ := h
      have hle := hts.le
      have hpos : 0 < text.length := List.length_pos_of_ne_nil hlongest.pattern.ne_nil
      exact ⟨_, (covers_lexeme hcs hl (by omega) _).mpr ⟨ts, rfl, hts⟩⟩
    · intro h
      obtain ⟨ts, hts⟩ := h
      have hle := hts.le
      obtain ⟨us, -, hus⟩ := (covers_lexeme hcs hl (by omega) ts).mp hts
      exact ⟨us, hus⟩

end

/-- No character of a formula is lost and none is invented. Its tokens are the one list that covers
it: the longest matches of their patterns, in order and without overlap, with blanks between them.
Otherwise the formula has an error, at the place that a cover reaches and where a character stands
that is no blank and starts no token. -/
theorem tokens_cover_the_source (source : String) :
    (∀ ts, tokenize source = .ok ts ↔ Covers source.toList 0 source.length ts) ∧
    ∀ e, tokenize source = .error e ↔
      ∃ c position ts, e = ⟨source, .unexpectedCharacter c position⟩ ∧ e.position = position ∧
        StuckAt source.toList c position ∧ Covers source.toList 0 position ts := by
  have hlength : source.toList.length = source.length := String.length_toList
  have hdrop : source.toList.drop 0 = source.toList := List.drop_zero
  constructor
  · intro ts
    rw [tokenize_eq_ok, scan_eq_ok_iff hdrop (Nat.zero_le _), hlength]
  · intro e
    constructor
    · intro h
      unfold tokenize at h
      split at h
      next => cases h
      next c position hs =>
        cases h
        obtain ⟨hstuck, ts, hts⟩ := (scan_eq_error_iff hdrop (Nat.zero_le _) c position).mp hs
        exact ⟨c, position, ts, rfl, rfl, hstuck, hts⟩
    · intro h
      obtain ⟨c, position, ts, rfl, -, hstuck, hts⟩ := h
      have hs := (scan_eq_error_iff hdrop (Nat.zero_le _) c position).mpr ⟨hstuck, ts, hts⟩
      unfold tokenize
      rw [hs]

end Token
end Isotherm
