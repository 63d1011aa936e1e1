import SeriesQuery.Text.Printable

/-!
# Quoted texts in messages

A message shows a text between double quotes.  The quote itself and the backslash take a
backslash, four controls have a letter of their own, and a character that cannot be
shown as it is becomes its code point in braces.  A file name is quoted in the same way,
and there a single quote takes a backslash too.
-/

namespace SeriesQuery.Text

/-- The code point of `c` in braces, in the fewest hexadecimal digits. -/
def codePoint (c : Char) : List Char :=
  ['\\', 'u', '\x7b'] ++ Nat.toDigits 16 c.toNat ++ ['\x7d']

/-- How a quoted text shows one character; `escapeSingle` says whether a single quote
takes a backslash. -/
def quotedChar (escapeSingle : Bool) (c : Char) : List Char :=
  if c = '"' then ['\\', '"']
  else if c = '\\' then ['\\', '\\']
  else if c = '\'' && escapeSingle then ['\\', '\'']
  else if c = '\t' then ['\\', 't']
  else if c = '\n' then ['\\', 'n']
  else if c = '\r' then ['\\', 'r']
  else if c.toNat = 0 then ['\\', '0']
  else if isPrintable c then [c]
  else codePoint c

/-- A text as messages quote it. -/
def quoted (s : String) : String :=
  String.ofList ('"' :: s.toList.flatMap (quotedChar false) ++ ['"'])

/-- A file name as messages quote it. -/
def quotedPath (s : String) : String :=
  String.ofList ('"' :: s.toList.flatMap (quotedChar true) ++ ['"'])

end SeriesQuery.Text
