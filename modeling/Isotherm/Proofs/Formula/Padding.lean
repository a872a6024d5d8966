import Isotherm.Proofs.Formula.LongestMatch
import Isotherm.Proofs.Formula.Relocated

/-!
# Blanks between tokens

Blanks may be put into a formula anywhere but inside a token. A token is the longest match of its
pattern, and a pattern takes no blank; so a token that is followed by other characters than before
is followed by a blank or by what followed it, and ends where it ended. The tokens stay what they
are and move behind the blanks, and the reader finds the same tree or the same fault.
-/

namespace Isotherm

open Text

/-! ## The characters of a token -/

namespace Token

theorem not_isBlank_of_continuesWord {c : Char} (h : continuesWord c = true) :
    isBlank c = false := by
  have hcases : startsWord c = true ∨ c.isDigit = true := by
    simp only [continuesWord, Char.isAlphanum, Bool.or_eq_true] at h
    simp only [startsWord, Bool.or_eq_true]
    tauto
  rcases hcases with hstart | hdigit
  · exact (not_isDigit_of_startsWord hstart).2
  · have hle : c.toNat ≤ 57 := by
      simp only [Char.isDigit, Bool.and_eq_true, decide_eq_true_eq] at hdigit
      exact UInt32.le_iff_toNat_le.mp hdigit.2
    have hall : ∀ n < 128, (Char.ofNat n).isDigit = true → isBlank (Char.ofNat n) = false := by
      decide
    exact forall_ascii (P := fun c => c.isDigit = true → isBlank c = false) hall (by omega) hdigit

/-- A token has no blank in it. -/
theorem Matches.not_isBlank_of_mem {kind : TokenKind} {text : List Char} (h : Matches kind text) :
    ∀ c ∈ text, isBlank c = false := by
  rcases h with ⟨-, n, hn, rfl⟩ | ⟨-, hname⟩ | ⟨c, hmark, rfl⟩
  · exact hn.not_isBlank
  · obtain ⟨c, cs, rfl, hstart, hall⟩ := isName_ofList hname
    refine List.forall_mem_cons.mpr ⟨(not_isDigit_of_startsWord hstart).2, ?_⟩
    exact fun d hd => not_isBlank_of_continuesWord (hall d hd)
  · simpa using (not_startsWord_of_ofMark? hmark).2.2

/-- The token that stands at the front is the one that is cut off. -/
theorem Standing.lexeme?_eq {kind : TokenKind} {c : Char} {cs text rest : List Char}
    (h : Standing kind text (c :: cs)) (happend : text ++ rest = c :: cs) :
    lexeme? c cs = some (kind, text, rest) := by
  cases hl : lexeme? c cs with
  | none => exact absurd h.longest.front (not_matches_of_lexeme? hl h.longest.pattern)
  | some cut =>
    obtain ⟨kind', text', rest'⟩ := cut
    obtain ⟨rfl, rfl⟩ := h.unique (standing_of_lexeme? hl)
    have hrest : rest' = rest := List.append_cancel_left ((append_of_lexeme? hl).trans happend.symm)
    rw [hrest]

end Token

/-! ## Blanks put into a text -/

/-- Blanks to be put into a text: those of `gap i` in front of the character that has `i` others
before it, and those of the gap behind the last character at the end. -/
structure Padding where
  gap : Nat → List Char
  blank : ∀ i, ∀ c ∈ gap i, isBlank c = true

namespace Padding

/-- The blanks gap by gap; none are put behind the last of these gaps. -/
def ofGaps (gaps : List (List Char)) (blank : ∀ gap ∈ gaps, ∀ c ∈ gap, isBlank c = true) :
    Padding where
  gap i := gaps.getD i []
  blank i := by
    rw [List.getD_eq_getElem?_getD]
    cases hgap : gaps[i]? with
    | none => simp
    | some gap => exact blank gap (List.mem_of_getElem? hgap)

variable (p : Padding)

/-- The blanks in the gaps before the one at `i`. -/
def added : Nat → Nat
  | 0 => 0
  | i + 1 => added i + (p.gap i).length

/-- Where the character at `i` comes to stand; at the end of the text, where the new end is. -/
def place (i : Nat) : Nat :=
  i + p.added (i + 1)

/-- The text `cs`, which stands behind `start` characters, with the blanks in it. -/
def spread : List Char → Nat → List Char
  | [], start => p.gap start
  | c :: cs, start => p.gap start ++ c :: spread cs (start + 1)

def pad (source : String) : String :=
  String.ofList (p.spread source.toList 0)

/-- No gap opens inside a token. -/
def Spares (ts : List Token) : Prop :=
  ∀ t ∈ ts, ∀ i, t.position < i → i < t.stop → p.gap i = []

instance (ts : List Token) : Decidable (p.Spares ts) :=
  have bounded : (∀ t ∈ ts, ∀ i < t.stop, t.position < i → p.gap i = []) ↔ p.Spares ts :=
    ⟨fun h t ht i hi hlt => h t ht i hlt hi, fun h t ht i hlt hi => h t ht i hi hlt⟩
  decidable_of_iff _ bounded

theorem place_lt_succ (i : Nat) : p.place i < p.place (i + 1) := by
  simp only [place, added]
  omega

/-- The characters keep their order. -/
theorem strictMono_place : StrictMono p.place :=
  strictMono_nat_of_lt_succ p.place_lt_succ

theorem length_spread (cs : List Char) (start : Nat) :
    start + p.added start + (p.spread cs start).length = p.place (start + cs.length) := by
  induction cs generalizing start with
  | nil => exact Nat.add_assoc _ _ _
  | cons c cs ih =>
    have hlength : start + (c :: cs).length = start + 1 + cs.length := by
      simp only [List.length_cons]
      omega
    rw [hlength, ← ih (start + 1), added, spread, List.length_append, List.length_cons]
    omega

theorem length_pad (source : String) : (p.pad source).length = p.place source.length := by
  have hlength := p.length_spread source.toList 0
  rw [Nat.zero_add, Nat.zero_add, String.length_toList] at hlength
  rw [pad, String.length_ofList, ← hlength]
  simp [added]

variable {p}

/-- Where no gap opens, the characters stay together. -/
theorem spread_append {c : Char} {text : List Char} {start : Nat} (rest : List Char)
    (h : ∀ i, start < i → i < start + (c :: text).length → p.gap i = []) :
    p.spread (c :: text ++ rest) start =
        p.gap start ++ (c :: text ++ p.spread rest (start + (c :: text).length)) ∧
      p.added (start + (c :: text).length) = p.added (start + 1) := by
  induction text generalizing c start with
  | nil => exact ⟨rfl, rfl⟩
  | cons d text ih =>
    have hgap := h (start + 1) (by omega) (by simp)
    have hlength : start + (c :: d :: text).length = start + 1 + (d :: text).length := by
      simp only [List.length_cons]
      omega
    obtain ⟨hspread, hadded⟩ := @ih d (start + 1) fun i hi hlt => h i (by omega) (hlength ▸ hlt)
    rw [hgap, List.nil_append] at hspread
    rw [added, hgap, List.length_nil, Nat.add_zero] at hadded
    rw [hlength, List.cons_append, spread, hspread]
    exact ⟨rfl, hadded⟩

/-- What has no blank in it stood at the front before the blanks were put in. -/
theorem isPrefix_of_spread {text cs : List Char} {start : Nat}
    (hblank : ∀ c ∈ text, isBlank c = false) (h : text <+: p.spread cs start) : text <+: cs := by
  induction text generalizing cs start with
  | nil => exact List.nil_prefix
  | cons c text ih =>
    obtain ⟨hc, htext⟩ := List.forall_mem_cons.mp hblank
    have hgap : p.gap start = [] := by
      by_contra hne
      obtain ⟨d, ds, hd⟩ := List.exists_cons_of_ne_nil hne
      have hfront : c = d := by
        cases cs with
        | nil | cons e cs =>
          rw [spread, hd] at h
          exact (List.cons_prefix_cons.mp h).1
      have hdblank := p.blank start d (by simp [hd])
      rw [← hfront, hc] at hdblank
      cases hdblank
    cases cs with
    | nil =>
      rw [spread, hgap, List.prefix_nil] at h
      cases h
    | cons d cs =>
      rw [spread, hgap, List.nil_append] at h
      obtain ⟨hhead, hrest⟩ := List.cons_prefix_cons.mp h
      exact List.cons_prefix_cons.mpr ⟨hhead, ih htext hrest⟩

end Padding

namespace Token

variable {p : Padding}

/-! ## The tokens of a padded text -/

theorem scan_blanks {blanks : List Char} (h : ∀ c ∈ blanks, isBlank c = true) (cs : List Char)
    (position : Nat) : scan (blanks ++ cs) position = scan cs (position + blanks.length) := by
  induction blanks generalizing position with
  | nil => rfl
  | cons c blanks ih =>
    obtain ⟨hc, hblanks⟩ := List.forall_mem_cons.mp h
    rw [List.cons_append, scan_blank hc, ih hblanks, List.length_cons]
    congr 1
    omega

/-- A longer match behind the blanks would have no blank in it, and would have been one before. -/
theorem Standing.spread {kind : TokenKind} {text rest : List Char}
    (h : Standing kind text (text ++ rest)) (start : Nat) :
    Standing kind text (text ++ p.spread rest start) := by
  refine ⟨⟨h.longest.pattern, List.prefix_append _ _, ?_⟩, h.var_iff⟩
  intro other hother hfront
  by_contra hlonger
  have hgt : text.length < other.length := Nat.lt_of_not_le hlonger
  obtain ⟨more, rfl⟩ := List.prefix_of_prefix_length_le (List.prefix_append text _) hfront hgt.le
  have hblank := hother.not_isBlank_of_mem
  have hmore : more <+: rest :=
    Padding.isPrefix_of_spread (fun c hc => hblank c (List.mem_append_right _ hc))
      ((List.prefix_append_right_inj text).mp hfront)
  exact hlonger (h.longest.longest _ hother ((List.prefix_append_right_inj text).mpr hmore))

/-- The token at the front moves behind the blanks in front of it. -/
theorem scan_spread_lexeme {kind : TokenKind} {c : Char} {cs text rest : List Char} {start : Nat}
    (hl : lexeme? c cs = some (kind, text, rest))
    (hgap : ∀ i, start < i → i < start + text.length → p.gap i = []) :
    scan (p.spread (c :: cs) start) (start + p.added start) =
      (scan (p.spread rest (start + text.length))
        (start + text.length + p.added (start + text.length))).map
        (⟨kind, String.ofList text, p.place start, admits_of_lexeme? hl⟩ :: ·) := by
  have happend := append_of_lexeme? hl
  have hstanding := standing_of_lexeme? hl
  have hblank := hstanding.longest.pattern.not_isBlank hstanding.longest.front
  obtain ⟨d, text, rfl⟩ := List.exists_cons_of_ne_nil hstanding.longest.pattern.ne_nil
  obtain ⟨rfl, -⟩ := List.cons.inj happend
  rw [← happend] at hstanding ⊢
  obtain ⟨hspread, hadded⟩ := Padding.spread_append rest hgap
  have hcut := (hstanding.spread (p := p) (start + (d :: text).length)).lexeme?_eq rfl
  have hplace : start + p.added start + (p.gap start).length = p.place start := Nat.add_assoc _ _ _
  rw [hspread, scan_blanks (p.blank start), hplace]
  refine (scan_lexeme hblank hcut (p.place start)).trans ?_
  rw [hadded, Padding.place, Nat.add_right_comm]

/-- Blanks outside the tokens move the tokens and leave them what they are. -/
theorem scan_spread {cs : List Char} {start : Nat} {ts : List Token}
    (hts : scan cs start = .ok ts) (hspares : p.Spares ts) :
    scan (p.spread cs start) (start + p.added start) =
      .ok (ts.map (·.relocate p.place)) := by
  induction cs, start using scan.induct generalizing ts with
  | case1 start =>
    rw [scan_nil] at hts
    cases hts
    have hblanks := scan_blanks (p.blank start) [] (start + p.added start)
    rw [List.append_nil, scan_nil] at hblanks
    exact hblanks
  | case2 start c cs hb ih =>
    rw [scan_blank hb] at hts
    have hrest := ih hts hspares
    rw [Padding.spread, scan_blanks (p.blank start), scan_blank hb, ← hrest, Padding.added]
    congr 1
    omega
  | case3 start c cs hb hl =>
    rw [scan_stuck (by simpa using hb) hl] at hts
    cases hts
  | case4 start c cs hb kind text rest hl _ ih =>
    rw [scan_lexeme (by simpa using hb) hl] at hts
    cases hs : scan rest (start + text.length) with
    | error stop =>
      rw [hs] at hts
      cases hts
    | ok us =>
      rw [hs] at hts
      cases hts
      obtain ⟨hhere, hbehind⟩ := List.forall_mem_cons.mp hspares
      rw [Token.stop, String.length_ofList] at hhere
      rw [scan_spread_lexeme hl hhere, ih hs hbehind]
      rfl

theorem tokenize_pad {source : String} {ts : List Token} (hts : tokenize source = .ok ts)
    (hspares : p.Spares ts) : tokenize (p.pad source) = .ok (ts.map (·.relocate p.place)) := by
  have hscan := scan_spread ((tokenize_eq_ok source ts).mp hts) hspares
  rw [Padding.added] at hscan
  rw [tokenize_eq_ok, Padding.pad, String.toList_ofList]
  exact hscan

end Token

namespace Equation

/-- Blanks mean nothing where they are not inside a token. A text with more of them has the same
tokens behind one another, each moved by the blanks in front of it. It is read as the same equation;
or it is rejected with the same complaint at the same token, or at the end of the text as before. -/
theorem blanks_are_insignificant {source : String} {ts : List Token} {p : Padding}
    (hts : Token.tokenize source = .ok ts) (hspares : p.Spares ts) :
    Token.tokenize (p.pad source) = .ok (ts.map (·.relocate p.place)) ∧
    (∀ e, parse source = .ok e → parse (p.pad source) = .ok e) ∧
    ∀ error, parse source = .error error →
      ∃ error', parse (p.pad source) = .error error' ∧
        error'.fault = error.fault.relocate p.place ∧
        error'.fault.detail = error.fault.detail ∧
        error'.position = p.place error.position ∧
        ∀ t ∈ ts, (t.relocate p.place).position = error'.position ↔
          t.position = error.position := by
  have hpad := Token.tokenize_pad hts hspares
  have hparse : parse (p.pad source) = (Cursor.start ts).equation.1.mapError fun fault =>
      ⟨p.pad source, fault.relocate p.place⟩ := by
    rw [parse_of_tokenize_eq_ok hpad, Grammar.equation_start_relocate]
    cases (Cursor.start ts).equation.1 <;> rfl
  refine ⟨hpad, ?_⟩
  rw [parse_of_tokenize_eq_ok hts, hparse]
  cases (Cursor.start ts).equation.1 with
  | ok e => simp [Except.mapError]
  | error fault =>
    refine ⟨fun e he => (by cases he), ?_⟩
    intro error herror
    cases herror
    have hposition : (fault.relocate p.place).position (p.pad source).length =
        p.place (fault.position source.length) := by
      rw [p.length_pad, ParseFault.position_relocate]
    refine ⟨_, rfl, rfl, fault.detail_relocate p.place, hposition, ?_⟩
    intro t _
    change p.place t.position = (fault.relocate p.place).position (p.pad source).length ↔ _
    rw [hposition, p.strictMono_place.injective.eq_iff]
    rfl

/-- A name that is not called, also with a line break in front of the formula and with blanks around
the sign that stands in place of the parenthesis. -/
theorem blanks_are_insignificant_uncalled :
    let gaps : List (List Char) := [['\n'], [], [], [], [], [' ', '\t'], ['\u2003']]
    let p : Padding := .ofGaps gaps (by simp [gaps, isBlank, blanks])
    let ts : List Token := [⟨.var, "y", 0, trivial⟩, ⟨.equals, "=", 1, trivial⟩,
      ⟨.identifier, "sin", 2, trivial⟩, ⟨.plus, "+", 5, trivial⟩, ⟨.var, "x", 6, trivial⟩]
    let error : ParseError :=
      ⟨"y=sin+x", .uncalled ⟨.identifier, "sin", 2, trivial⟩ (some ⟨.plus, "+", 5, trivial⟩)⟩
    Token.tokenize "y=sin+x" = .ok ts ∧ p.Spares ts ∧ parse "y=sin+x" = .error error ∧
      p.pad "y=sin+x" = "\ny=sin \t+\u2003x" ∧
      Token.tokenize "\ny=sin \t+\u2003x" = .ok [⟨.var, "y", 1, trivial⟩, ⟨.equals, "=", 2, trivial⟩,
        ⟨.identifier, "sin", 3, trivial⟩, ⟨.plus, "+", 8, trivial⟩, ⟨.var, "x", 10, trivial⟩] ∧
      ∃ error', parse "\ny=sin \t+\u2003x" = .error error' ∧
        error'.fault = .uncalled ⟨.identifier, "sin", 3, trivial⟩ (some ⟨.plus, "+", 8, trivial⟩) ∧
        error'.position = 8 := by
  intro gaps p ts error
  have htokens : Token.tokenize "y=sin+x" = .ok ts := by cbv
  have hspares : p.Spares ts := by decide
  have herror : parse "y=sin+x" = .error error := by cbv
  have hpad : p.pad "y=sin+x" = "\ny=sin \t+\u2003x" := by decide
  obtain ⟨hmoved, -, hrejected⟩ := blanks_are_insignificant htokens hspares
  obtain ⟨error', herror', hfault, -, hposition, -⟩ := hrejected error herror
  rw [hpad] at hmoved herror'
  exact ⟨htokens, hspares, herror, hpad, hmoved, error', herror', hfault, hposition⟩

end Equation
end Isotherm
