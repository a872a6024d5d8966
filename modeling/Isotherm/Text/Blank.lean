/-!
# Blank characters

The characters that count as white space: those of the Unicode property, and the four information
separators.
-/

namespace Isotherm.Text

def blanks : List Nat :=
  [0x9, 0xA, 0xB, 0xC, 0xD, 0x1C, 0x1D, 0x1E, 0x1F, 0x20,
   0x85, 0xA0, 0x1680, 0x2000, 0x2001, 0x2002, 0x2003, 0x2004, 0x2005, 0x2006,
   0x2007, 0x2008, 0x2009, 0x200A, 0x2028, 0x2029, 0x202F, 0x205F, 0x3000]

/-- Whether `c` is white space. -/
def isBlank (c : Char) : Bool :=
  blanks.contains c.toNat

/-- `cs` without the blanks at its two ends. -/
def trimBlanks (cs : List Char) : List Char :=
  ((cs.dropWhile isBlank).reverse.dropWhile isBlank).reverse

end Isotherm.Text
