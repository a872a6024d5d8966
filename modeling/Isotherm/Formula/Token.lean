import Isotherm.Proofs.Number.Numerals

/-!
# Tokens

A formula is cut into tokens from the left, each as long as possible: numbers, names, and single
marks. Blanks separate tokens and mean nothing else. `scan` stops at the first character that
starts no token.
-/

namespace Isotherm

open Text

/-- The kinds of token. A name that is a single X, Y or T of either case is a variable. -/
inductive TokenKind where
  | number | identifier | var
  | plus | minus | multiply | divide | power | modulus
  | equals | comma | leftParenthesis | rightParenthesis
deriving DecidableEq, Repr

namespace TokenKind

def name : TokenKind → String
  | number => "NUMBER"
  | identifier => "IDENT"
  | var => "VAR"
  | plus => "PLUS"
  | minus => "MINUS"
  | multiply => "MULTIPLY"
  | divide => "DIVIDE"
  | power => "POWER"
  | modulus => "MODULUS"
  | equals => "EQUALS"
  | comma => "COMMA"
  | leftParenthesis => "LPAREN"
  | rightParenthesis => "RPAREN"

def all : List TokenKind :=
  [number, identifier, var, plus, minus, multiply, divide, power, modulus,
   equals, comma, leftParenthesis, rightParenthesis]

def ofName? (name : String) : Option TokenKind :=
  all.find? (·.name == name)

def ofMark? : Char → Option TokenKind
  | '+' => some plus
  | '-' => some minus
  | '*' => some multiply
  | '/' => some divide
  | '^' => some power
  | '%' => some modulus
  | '=' => some equals
  | ',' => some comma
  | '(' => some leftParenthesis
  | ')' => some rightParenthesis
  | _ => none

def ofWord : List Char → TokenKind
  | [c] => if "XYTxyt".toList.contains c then var else identifier
  | _ => identifier

theorem ne_number_of_ofMark? {c : Char} {kind : TokenKind} (h : ofMark? c = some kind) :
    kind ≠ number := by
  unfold ofMark? at h
  split at h <;> cases h <;> decide

theorem ofWord_ne_number (word : List Char) : ofWord word ≠ number := by
  unfold ofWord
  split
  · split <;> decide
  · decide

/-- A text that a token of the kind may have: that of a number token is a number. -/
def Admits (kind : TokenKind) (text : String) : Prop :=
  match kind with
  | number => (Numeral.real? text).isSome
  | _ => True

instance (kind : TokenKind) (text : String) : Decidable (kind.Admits text) :=
  match kind with
  | number => inferInstanceAs (Decidable ((Numeral.real? text).isSome = true))
  | identifier | var | plus | minus | multiply | divide | power | modulus | equals | comma
  | leftParenthesis | rightParenthesis => .isTrue trivial

theorem Admits.isSome {text : String} (h : number.Admits text) : (Numeral.real? text).isSome :=
  h

theorem admits_of_ne {kind : TokenKind} (h : kind ≠ number) (text : String) :
    kind.Admits text := by
  cases kind with
  | number => exact absurd rfl h
  | _ => trivial

/-- All that counts about a text is whether it is a number. -/
theorem Admits.congr {kind : TokenKind} {text other : String} (h : kind.Admits text)
    (hother : Numeral.real? other = Numeral.real? text) : kind.Admits other := by
  cases kind with
  | number => exact (congrArg Option.isSome hother).trans h
  | _ => trivial

end TokenKind

/-- A piece of a formula and the number of characters before it. A piece that is no number is not
kept as one, so a number token always has its number. -/
@[ext] structure Token where
  kind : TokenKind
  text : String
  position : Nat
  admitted : kind.Admits text
deriving DecidableEq, Repr

namespace Token

/-- The number that the token stands for, if it is a number token. -/
def number? (t : Token) : Option Float :=
  if t.kind = .number then Numeral.real? t.text else none

theorem number?_of_kind {t : Token} (h : t.kind = .number) : t.number? = Numeral.real? t.text :=
  if_pos h

/-- A number token has its number. -/
theorem exists_number? {t : Token} (h : t.kind = .number) : ∃ v, t.number? = some v := by
  have hadmitted := t.admitted
  rw [h] at hadmitted
  rw [number?_of_kind h]
  exact Option.isSome_iff_exists.mp hadmitted.isSome

theorem kind_of_number? {t : Token} {v : Float} (h : t.number? = some v) : t.kind = .number := by
  unfold number? at h
  split at h
  next hk => exact hk
  next => cases h

theorem number?_get (text : String) (position : Nat)
    (admitted : TokenKind.number.Admits text) :
    number? ⟨.number, text, position, admitted⟩ =
      some ((Numeral.real? text).get admitted.isSome) := by
  rw [number?_of_kind rfl, Option.some_get]

/-- A token as it is listed: kind, text and position. -/
def listed (t : Token) : String :=
  t.kind.name ++ ":" ++ t.text ++ "@" ++ toString t.position

def listing (ts : List Token) : String :=
  "[" ++ String.intercalate ", " (ts.map listed) ++ "]"

/-- Whether a name may start with `c`. -/
def startsWord (c : Char) : Bool :=
  c.isAlpha || c == '_'

/-- Whether a name may go on with `c`. -/
def continuesWord (c : Char) : Bool :=
  c.isAlphanum || c == '_'

/-- The longest token at the front of `c :: cs`, with the characters behind it. -/
def lexeme? (c : Char) (cs : List Char) : Option (TokenKind × List Char × List Char) :=
  if isDigit c then
    let (numeral, rest) := Numeral.take (c :: cs)
    some (.number, numeral.chars, rest)
  else if startsWord c then
    let word := c :: cs.takeWhile continuesWord
    some (TokenKind.ofWord word, word, cs.dropWhile continuesWord)
  else (TokenKind.ofMark? c).map fun kind => (kind, [c], cs)

theorem length_dropWhile_le (p : Char → Bool) (cs : List Char) :
    (cs.dropWhile p).length ≤ cs.length :=
  (List.dropWhile_sublist p).length_le

theorem length_takeFraction_le (cs : List Char) :
    (Numeral.takeFraction cs).2.length ≤ cs.length := by
  unfold Numeral.takeFraction
  split
  · split
    · simp
    · simpa using Nat.le_succ_of_le (length_dropWhile_le isDigit _)
  · simp

theorem length_takeSign_le (cs : List Char) : (Numeral.takeSign cs).2.length ≤ cs.length := by
  unfold Numeral.takeSign
  split <;> simp

theorem length_takeExponent_le (cs : List Char) :
    (Numeral.takeExponent cs).2.length ≤ cs.length := by
  unfold Numeral.takeExponent
  split
  · simp
  next c cs =>
    have sign := length_takeSign_le cs
    have digits := length_dropWhile_le isDigit (Numeral.takeSign cs).2
    split
    · simp only []
      split
      · simp
      · simp only [List.length_cons]; omega
    · simp

/-- A token takes at least one character. -/
theorem length_lt_of_lexeme? {c : Char} {cs : List Char} {kind : TokenKind} {text rest : List Char}
    (h : lexeme? c cs = some (kind, text, rest)) : rest.length < (c :: cs).length := by
  unfold lexeme? at h
  split at h
  next digit =>
    simp only [Numeral.take, Option.some.injEq, Prod.mk.injEq] at h
    obtain ⟨-, -, rfl⟩ := h
    have exponent := length_takeExponent_le
      (Numeral.takeFraction ((c :: cs).dropWhile isDigit)).2
    have fraction := length_takeFraction_le ((c :: cs).dropWhile isDigit)
    have whole := length_dropWhile_le isDigit cs
    rw [List.dropWhile_cons_of_pos digit] at exponent fraction ⊢
    simp only [List.length_cons]
    omega
  · split at h
    · simp only [Option.some.injEq, Prod.mk.injEq] at h
      obtain ⟨-, -, rfl⟩ := h
      have := length_dropWhile_le continuesWord cs
      simp only [List.length_cons]
      omega
    · simp only [Option.map_eq_some_iff, Prod.mk.injEq] at h
      obtain ⟨_, _, -, -, rfl⟩ := h
      simp

/-- The text of a number token is a numeral, which is a number on its own. -/
theorem admits_of_lexeme? {c : Char} {cs : List Char} {kind : TokenKind} {text rest : List Char}
    (h : lexeme? c cs = some (kind, text, rest)) :
    kind.Admits (String.ofList text) := by
  unfold lexeme? at h
  split at h
  next digit =>
    simp only [Option.some.injEq, Prod.mk.injEq] at h
    obtain ⟨rfl, rfl, -⟩ := h
    rw [TokenKind.Admits, Numeral.real?_chars (Numeral.wellFormed_take digit cs)]
    rfl
  next =>
    split at h
    next =>
      simp only [Option.some.injEq, Prod.mk.injEq] at h
      obtain ⟨rfl, -⟩ := h
      exact TokenKind.admits_of_ne (TokenKind.ofWord_ne_number _) _
    next =>
      simp only [Option.map_eq_some_iff, Prod.mk.injEq] at h
      obtain ⟨_, hmark, rfl, -, -⟩ := h
      exact TokenKind.admits_of_ne (TokenKind.ne_number_of_ofMark? hmark) _

/-- The tokens of `cs`, which stands at `position` in the formula; or the first character that
starts no token, with its position. -/
def scan (cs : List Char) (position : Nat) : Except (Char × Nat) (List Token) :=
  match cs with
  | [] => .ok []
  | c :: cs =>
    if isBlank c then scan cs (position + 1)
    else
      match h : lexeme? c cs with
      | none => .error (c, position)
      | some (kind, text, rest) =>
        have := length_lt_of_lexeme? h
        (scan rest (position + text.length)).map
          (⟨kind, String.ofList text, position, admits_of_lexeme? h⟩ :: ·)
termination_by cs.length
decreasing_by all_goals (simp only [List.length_cons] at *; omega)

end Token
end Isotherm
