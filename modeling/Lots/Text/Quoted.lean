import Lots.Numeral
import Lots.Text.Printable

/-!
# Lots — quoted texts in messages

A message shows a text between quotation marks on one line: the mark is the single
quote unless the text holds one and no double quote, and a backslash escapes the
mark, the backslash itself, and every character that is not printable.
-/

namespace Lots.Text

/-- The mark around a quoted text. -/
def quoteMark (s : List Char) : Char :=
  if s.contains '\'' && !s.contains '"' then '"' else '\''

/-- How one character is written between two marks. -/
def quotedChar (mark c : Char) : List Char :=
  if c = mark ∨ c = '\\' then ['\\', c]
  else if c = '\n' then ['\\', 'n']
  else if c = '\r' then ['\\', 'r']
  else if c = '\t' then ['\\', 't']
  else if isPrintable c then [c]
  else if c.toNat < 0x100 then '\\' :: 'x' :: Numeral.hexText 2 c.toNat
  else if c.toNat < 0x10000 then '\\' :: 'u' :: Numeral.hexText 4 c.toNat
  else '\\' :: 'U' :: Numeral.hexText 8 c.toNat

/-- A text as messages show it. -/
def quoted (s : List Char) : List Char :=
  let mark := quoteMark s
  mark :: s.flatMap (quotedChar mark) ++ [mark]

end Lots.Text
