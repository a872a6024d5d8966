import Isotherm.Formula.Reader
import Isotherm.Proofs.Number.Numerals

/-!
# Tokens and the texts they stand for

Every token that is cut from a formula is a well-formed numeral, a variable, a function name or a
mark. Going the other way, such a text is cut as one token wherever a boundary stands behind it, and
the rest of the formula is cut after it.
-/

namespace Isotherm

open Text

/-! ## Names -/

/-- The spellings of the three variables. -/
def variableNames : List String := ["X", "Y", "T", "x", "y", "t"]

/-- A name of letters, digits and underscores that starts with no digit. -/
def IsName (name : String) : Prop :=
  ∃ c cs, name.toList = c :: cs ∧ Token.startsWord c = true ∧ ∀ d ∈ cs, Token.continuesWord d = true

theorem isName_of_toList {name : String} {c : Char} {cs : List Char} (h : name.toList = c :: cs) :
    IsName name ↔ Token.startsWord c = true ∧ ∀ d ∈ cs, Token.continuesWord d = true := by
  constructor
  · rintro ⟨c', cs', h', hc, hall⟩
    cases h.symm.trans h'
    exact ⟨hc, hall⟩
  · exact fun ⟨hc, hall⟩ => ⟨c, cs, h, hc, hall⟩

instance (name : String) : Decidable (IsName name) :=
  match h : name.toList with
  | [] => .isFalse (by simp [IsName, h])
  | _ :: cs =>
    have : Decidable (∀ d ∈ cs, Token.continuesWord d = true) := List.decidableBAll _ cs
    decidable_of_iff _ (isName_of_toList h).symm

/-- A name that is no variable. -/
def IsFunctionName (name : String) : Prop :=
  IsName name ∧ name ∉ variableNames

instance (name : String) : Decidable (IsFunctionName name) :=
  inferInstanceAs (Decidable (_ ∧ _))

theorem mem_variableNames_iff (name : String) :
    name ∈ variableNames ↔ ∃ c ∈ "XYTxyt".toList, name.toList = [c] := by
  simp [variableNames, ← String.toList_inj]

theorem ofWord_eq_var_iff (name : String) :
    TokenKind.ofWord name.toList = .var ↔ name ∈ variableNames := by
  rw [mem_variableNames_iff]
  unfold TokenKind.ofWord
  split
  next c hc =>
    rw [hc]
    split
    next h => exact iff_of_true rfl ⟨c, List.contains_iff_mem.mp h, rfl⟩
    next h =>
      refine iff_of_false (by decide) ?_
      rintro ⟨d, hd, ⟨⟩⟩
      exact h (List.contains_iff_mem.mpr hd)
  next hne =>
    refine iff_of_false (by decide) ?_
    rintro ⟨c, -, hc⟩
    exact hne c hc

/-- A name is a variable or a function name. -/
theorem ofWord_cases (word : List Char) :
    TokenKind.ofWord word = .var ∨ TokenKind.ofWord word = .identifier := by
  unfold TokenKind.ofWord
  split
  · split
    · exact .inl rfl
    · exact .inr rfl
  · exact .inr rfl

theorem ofWord_eq_identifier {name : String} (h : name ∉ variableNames) :
    TokenKind.ofWord name.toList = .identifier :=
  (ofWord_cases _).resolve_left fun hv => h ((ofWord_eq_var_iff name).mp hv)

theorem isName_of_mem_variableNames {name : String} (h : name ∈ variableNames) : IsName name := by
  obtain ⟨c, hc, hname⟩ := (mem_variableNames_iff name).mp h
  have hall : "XYTxyt".toList.all Token.startsWord = true := by decide
  exact ⟨c, [], hname, List.all_eq_true.mp hall c hc, by simp⟩

namespace Token

/-! ## Characters that start a token -/

theorem ascii_of_startsWord {c : Char} (h : startsWord c = true) : c.toNat < 128 := by
  unfold startsWord Char.isAlpha Char.isUpper Char.isLower at h
  simp only [Bool.or_eq_true, Bool.and_eq_true, decide_eq_true_eq, beq_iff_eq] at h
  rcases h with (⟨-, h⟩ | ⟨-, h⟩) | rfl
  · exact Nat.lt_of_le_of_lt (UInt32.le_iff_toNat_le.mp h) (by decide)
  · exact Nat.lt_of_le_of_lt (UInt32.le_iff_toNat_le.mp h) (by decide)
  · decide

/-- A name starts with no digit and no blank. -/
theorem not_isDigit_of_startsWord {c : Char} (h : startsWord c = true) :
    isDigit c = false ∧ isBlank c = false := by
  have hall : ∀ n < 128, startsWord (Char.ofNat n) = true →
      isDigit (Char.ofNat n) = false ∧ isBlank (Char.ofNat n) = false := by decide
  exact forall_ascii (P := fun c => startsWord c = true → isDigit c = false ∧ isBlank c = false)
    hall (ascii_of_startsWord h) h

/-- A mark is no part of a number or a name, and no blank. -/
theorem not_startsWord_of_ofMark? {c : Char} {kind : TokenKind}
    (h : TokenKind.ofMark? c = some kind) :
    isDigit c = false ∧ startsWord c = false ∧ isBlank c = false := by
  unfold TokenKind.ofMark? at h
  split at h <;> first | decide | cases h

/-- The kinds of token that are no mark. -/
theorem ofMark?_ne {c : Char} {kind : TokenKind} (h : TokenKind.ofMark? c = some kind) :
    kind ≠ .number ∧ kind ≠ .var ∧ kind ≠ .identifier := by
  unfold TokenKind.ofMark? at h
  split at h <;> cases h <;> decide

/-! ## What a token stands for -/

/-- The text of a token is what its kind says. -/
def WellFormed (t : Token) : Prop :=
  t.kind = .number ∧ (∃ n : Numeral, n.WellFormed ∧ n.chars = t.text.toList) ∨
    t.kind = .var ∧ t.text ∈ variableNames ∨
    t.kind = .identifier ∧ IsFunctionName t.text ∨
    ∃ c, TokenKind.ofMark? c = some t.kind ∧ t.text = String.ofList [c]

theorem wellFormed_of_lexeme? {c : Char} {cs text rest : List Char} {kind : TokenKind}
    (h : lexeme? c cs = some (kind, text, rest)) (position : Nat) :
    (⟨kind, String.ofList text, position, admits_of_lexeme? h⟩ : Token).WellFormed := by
  unfold lexeme? at h
  split at h
  next hdigit =>
    obtain ⟨rfl, rfl, -⟩ : .number = kind ∧ _ = text ∧ _ := by simpa using h
    exact .inl ⟨rfl, _, Numeral.wellFormed_take hdigit cs, (String.toList_ofList).symm⟩
  next =>
    split at h
    next hstart =>
      obtain ⟨rfl, rfl, -⟩ : _ = kind ∧ _ = text ∧ _ := by simpa using h
      have hname : IsName (String.ofList (c :: cs.takeWhile continuesWord)) :=
        ⟨c, _, String.toList_ofList, hstart, fun d hd => of_mem_takeWhile hd⟩
      have hiff := ofWord_eq_var_iff (String.ofList (c :: cs.takeWhile continuesWord))
      rw [String.toList_ofList] at hiff
      rcases ofWord_cases (c :: cs.takeWhile continuesWord) with hw | hw
      · exact .inr (.inl ⟨hw, hiff.mp hw⟩)
      · refine .inr (.inr (.inl ⟨hw, hname, fun hv => ?_⟩))
        rw [hiff.mpr hv] at hw
        cases hw
    next =>
      obtain ⟨kind', hmark, rfl, rfl, -⟩ : ∃ k, _ ∧ k = kind ∧ _ = text ∧ _ := by simpa using h
      exact .inr (.inr (.inr ⟨c, hmark, rfl⟩))

/-- A token is cut off the front and nothing is lost. -/
theorem append_of_lexeme? {c : Char} {cs text rest : List Char} {kind : TokenKind}
    (h : lexeme? c cs = some (kind, text, rest)) : text ++ rest = c :: cs := by
  unfold lexeme? at h
  split at h
  next =>
    simp only [Option.some.injEq, Prod.mk.injEq] at h
    obtain ⟨-, htext, hrest⟩ := h
    subst htext hrest
    exact Numeral.chars_take (c :: cs)
  next =>
    split at h
    next =>
      simp only [Option.some.injEq, Prod.mk.injEq] at h
      obtain ⟨-, htext, hrest⟩ := h
      subst htext hrest
      rw [List.cons_append, List.takeWhile_append_dropWhile]
    next =>
      simp only [Option.map_eq_some_iff, Prod.mk.injEq] at h
      obtain ⟨_, -, -, htext, hrest⟩ := h
      subst htext hrest
      rfl

theorem scan_nil (position : Nat) : scan [] position = .ok [] := by
  rw [scan]

theorem scan_blank {c : Char} (h : isBlank c = true) (cs : List Char) (position : Nat) :
    scan (c :: cs) position = scan cs (position + 1) := by
  rw [scan, if_pos h]

theorem scan_lexeme {c : Char} {cs text rest : List Char} {kind : TokenKind}
    (hb : isBlank c = false) (h : lexeme? c cs = some (kind, text, rest)) (position : Nat) :
    scan (c :: cs) position =
      (scan rest (position + text.length)).map
        (⟨kind, String.ofList text, position, admits_of_lexeme? h⟩ :: ·) := by
  rw [scan, if_neg (by simp [hb])]
  split
  next h' => cases h'.symm.trans h
  next h' =>
    cases h'.symm.trans h
    rfl

theorem scan_stuck {c : Char} {cs : List Char} (hb : isBlank c = false)
    (h : lexeme? c cs = none) (position : Nat) :
    scan (c :: cs) position = .error (c, position) := by
  rw [scan, if_neg (by simp [hb])]
  split
  next => rfl
  next h' => cases h'.symm.trans h

/-- Every token of a formula is well formed. -/
theorem wellFormed_of_scan (cs : List Char) (position : Nat) {ts : List Token}
    (h : scan cs position = .ok ts) : ∀ t ∈ ts, t.WellFormed := by
  induction cs, position using scan.induct generalizing ts with
  | case1 =>
    rw [scan_nil] at h
    cases h
    simp
  | case2 position c cs hb ih =>
    rw [scan_blank hb] at h
    exact ih h
  | case3 position c cs hb hl =>
    rw [scan_stuck (by simpa using hb) hl] at h
    cases h
  | case4 position c cs hb kind text rest hl _ ih =>
    rw [scan_lexeme (by simpa using hb) hl] at h
    cases hs : scan rest (position + text.length) with
    | error e =>
      rw [hs] at h
      cases h
    | ok us =>
      rw [hs] at h
      cases h
      intro t ht
      rcases List.mem_cons.mp ht with rfl | ht
      · exact wellFormed_of_lexeme? hl position
      · exact ih hs t ht

/-- The text of the token stands in `cs` behind as many characters as its position says. -/
def StandsIn (t : Token) (cs : List Char) : Prop :=
  ∃ front behind, cs = front ++ (t.text.toList ++ behind) ∧ front.length = t.position

/-- Every token stands at its position. -/
theorem standsIn_of_scan (cs : List Char) (position : Nat) {ts : List Token}
    (h : scan cs position = .ok ts) (front : List Char) (hfront : front.length = position) :
    ∀ t ∈ ts, t.StandsIn (front ++ cs) := by
  induction cs, position using scan.induct generalizing ts front with
  | case1 =>
    rw [scan_nil] at h
    cases h
    simp
  | case2 position c cs hb ih =>
    rw [scan_blank hb] at h
    have hcs := ih h (front ++ [c]) (by simp [hfront])
    rwa [List.append_assoc] at hcs
  | case3 position c cs hb hl =>
    rw [scan_stuck (by simpa using hb) hl] at h
    cases h
  | case4 position c cs hb kind text rest hl _ ih =>
    rw [scan_lexeme (by simpa using hb) hl] at h
    have htext := append_of_lexeme? hl
    cases hs : scan rest (position + text.length) with
    | error e =>
      rw [hs] at h
      cases h
    | ok us =>
      rw [hs] at h
      cases h
      have hrest := ih hs (front ++ text) (by simp [hfront])
      rw [List.append_assoc, htext] at hrest
      refine List.forall_mem_cons.mpr ⟨⟨front, rest, ?_, hfront⟩, hrest⟩
      rw [String.toList_ofList, htext]

theorem WellFormed.number {t : Token} (h : t.WellFormed) (hk : t.kind = .number) :
    ∃ n : Numeral, n.WellFormed ∧ n.chars = t.text.toList := by
  rcases h with h | h | h | ⟨c, hc, -⟩
  · exact h.2
  · cases hk.symm.trans h.1
  · cases hk.symm.trans h.1
  · exact absurd hk (ofMark?_ne hc).1

theorem WellFormed.var {t : Token} (h : t.WellFormed) (hk : t.kind = .var) :
    t.text ∈ variableNames := by
  rcases h with h | h | h | ⟨c, hc, -⟩
  · cases hk.symm.trans h.1
  · exact h.2
  · cases hk.symm.trans h.1
  · exact absurd hk (ofMark?_ne hc).2.1

theorem WellFormed.identifier {t : Token} (h : t.WellFormed) (hk : t.kind = .identifier) :
    IsFunctionName t.text := by
  rcases h with h | h | h | ⟨c, hc, -⟩
  · cases hk.symm.trans h.1
  · cases hk.symm.trans h.1
  · exact h.2
  · exact absurd hk (ofMark?_ne hc).2.2

/-! ## Cutting a text in front of a boundary -/

/-- What stands behind a number or a name in a written formula. -/
def Boundary (rest : List Char) : Prop :=
  ∀ c ∈ rest.head?, c ∈ [' ', '(', ')', ',']

theorem Boundary.ends {rest : List Char} (h : Boundary rest) : Numeral.Ends rest := by
  intro c hc
  have hmem := h c hc
  simp only [List.mem_cons, List.not_mem_nil, or_false] at hmem
  rcases hmem with rfl | rfl | rfl | rfl <;> decide

theorem Boundary.not_continuesWord {rest : List Char} (h : Boundary rest) :
    ∀ c ∈ rest.head?, continuesWord c = false := by
  intro c hc
  have hmem := h c hc
  simp only [List.mem_cons, List.not_mem_nil, or_false] at hmem
  rcases hmem with rfl | rfl | rfl | rfl <;> rfl

theorem scan_numeral {n : Numeral} (hn : n.WellFormed) {text : String}
    (htext : n.chars = text.toList)
    (admitted : TokenKind.number.Admits text) {rest : List Char}
    (hr : Boundary rest) (position : Nat) :
    scan (text.toList ++ rest) position =
      (scan rest (position + text.toList.length)).map (⟨.number, text, position, admitted⟩ :: ·) := by
  obtain ⟨c, cs, hcs, hc⟩ := hn.head_chars
  have htake := Numeral.take_append hn hr.ends
  rw [hcs] at htake
  have hlex : lexeme? c (cs ++ rest) = some (.number, text.toList, rest) := by
    rw [lexeme?, if_pos hc, ← List.cons_append, htake, ← htext]
  have hscan := scan_lexeme (isBlank_of_isDigit hc) hlex position
  rw [← List.cons_append, ← hcs, htext] at hscan
  simpa only [String.ofList_toList] using hscan

theorem scan_name {name : String} (hn : IsName name) {kind : TokenKind}
    (hk : TokenKind.ofWord name.toList = kind) {rest : List Char} (hr : Boundary rest)
    (position : Nat) :
    scan (name.toList ++ rest) position =
      (scan rest (position + name.toList.length)).map
        (⟨kind, name, position,
          TokenKind.admits_of_ne (hk ▸ TokenKind.ofWord_ne_number _) name⟩ :: ·) := by
  subst hk
  obtain ⟨c, cs, hcs, hc, hall⟩ := hn
  obtain ⟨hdigit, hblank⟩ := not_isDigit_of_startsWord hc
  have hlex : lexeme? c (cs ++ rest) =
      some (TokenKind.ofWord name.toList, name.toList, rest) := by
    rw [lexeme?, if_neg (by simp [hdigit]), if_pos hc, takeWhile_run hall hr.not_continuesWord,
      dropWhile_run hall hr.not_continuesWord, hcs]
  have hscan := scan_lexeme hblank hlex position
  rw [← List.cons_append, ← hcs] at hscan
  simpa only [String.ofList_toList] using hscan

theorem scan_mark {c : Char} {kind : TokenKind} (h : TokenKind.ofMark? c = some kind)
    (rest : List Char) (position : Nat) :
    scan (c :: rest) position =
      (scan rest (position + 1)).map
        (⟨kind, String.ofList [c], position,
          TokenKind.admits_of_ne (TokenKind.ne_number_of_ofMark? h) _⟩ :: ·) := by
  obtain ⟨hdigit, hstart, hblank⟩ := not_startsWord_of_ofMark? h
  have hlex : lexeme? c rest = some (kind, [c], rest) := by
    rw [lexeme?, if_neg (by simp [hdigit]), if_neg (by simp [hstart]), h]
    rfl
  exact scan_lexeme hblank hlex position

end Token
end Isotherm
