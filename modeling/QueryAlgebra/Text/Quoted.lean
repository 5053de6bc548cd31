import QueryAlgebra.Text.Invisible

/-!
# Quoted text

A text between quotes as descriptions and messages show it: quotes, backslashes, line ends, tabs and
the null character by short escapes, other characters without a shape by their number in
hexadecimal, all else as it is.
-/

namespace QueryAlgebra

namespace Text

/-- A character by its number. -/
def numbered (c : Char) : List Char :=
  ['\\', 'u', '\x7b'] ++ Nat.toDigits 16 c.toNat ++ ['\x7d']

/-- How a character is written between quotes. -/
def quoteChar (c : Char) : List Char :=
  if c = '"' then ['\\', '"']
  else if c = '\\' then ['\\', '\\']
  else if c = '\n' then ['\\', 'n']
  else if c = '\r' then ['\\', 'r']
  else if c = '\t' then ['\\', 't']
  else if c = '\x00' then ['\\', '0']
  else if isInvisible c then numbered c
  else [c]

/-- A text between quotes. -/
def quoted (s : String) : String := "\"" ++ String.ofList (s.toList.flatMap quoteChar) ++ "\""

/-- Texts joined by a separator. -/
def joined (separator : String) (texts : List String) : String := separator.intercalate texts

end Text

end QueryAlgebra
