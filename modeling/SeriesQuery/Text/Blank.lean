/-!
# Blanks

Two notions of blank are used.  Between the words of a statement only the space, the tab
and the two line ends may stand; everywhere else a blank is any character that Unicode
calls white space.
-/

namespace SeriesQuery.Text

/-- The four blanks that may separate the words of a statement. -/
def isBlank (c : Char) : Bool :=
  c == ' ' || c == '\t' || c == '\r' || c == '\n'

/-- White space in the sense of Unicode. -/
def isSpace (c : Char) : Bool :=
  (9 ≤ c.toNat && c.toNat ≤ 13) || c.toNat == 32 || c.toNat == 0x85 ||
  c.toNat == 0xa0 || c.toNat == 0x1680 || (0x2000 ≤ c.toNat && c.toNat ≤ 0x200a) ||
  c.toNat == 0x2028 || c.toNat == 0x2029 || c.toNat == 0x202f || c.toNat == 0x205f ||
  c.toNat == 0x3000

/-- The characters after leading white space. -/
def trimLeft (s : List Char) : List Char := s.dropWhile isSpace

/-- The characters between leading and trailing white space. -/
def trimChars (s : List Char) : List Char :=
  ((trimLeft s).reverse.dropWhile isSpace).reverse

/-- Whether a text holds nothing but white space. -/
def isEmptyText (s : String) : Bool := s.toList.all isSpace

end SeriesQuery.Text
