import Isotherm.Text.Printable

/-!
# Quoted text

A text in a message stands between quotes. Single quotes are used unless the text holds a single
quote and no double one. The quote in use and the backslash are escaped with a backslash; line feed,
carriage return and tab are written by letter, other characters that do not print by code.
-/

namespace Isotherm.Text

/-- The last `width` lower-case hexadecimal digits of `n`. -/
def hex (width n : Nat) : String :=
  let digits := Nat.toDigits 16 n
  String.ofList (List.replicate (width - digits.length) '0' ++ digits)

/-- The quote that goes around `cs`. -/
def quoteMark (cs : List Char) : Char :=
  if cs.contains '\'' && !cs.contains '"' then '"' else '\''

def escaped (quote c : Char) : String :=
  if c == quote || c == '\\' then String.ofList ['\\', c]
  else if c == '\n' then "\\n"
  else if c == '\r' then "\\r"
  else if c == '\t' then "\\t"
  else if isPrintable c then String.singleton c
  else if c.toNat < 0x100 then "\\x" ++ hex 2 c.toNat
  else if c.toNat < 0x10000 then "\\u" ++ hex 4 c.toNat
  else "\\U" ++ hex 8 c.toNat

/-- `s` as it is quoted in a message. -/
def quoted (s : String) : String :=
  let quote := quoteMark s.toList
  let inner := s.toList.map (escaped quote)
  String.singleton quote ++ String.join inner ++ String.singleton quote

end Isotherm.Text
