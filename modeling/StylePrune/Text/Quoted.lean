import StylePrune.Text.Hex
import StylePrune.Text.Printable

/-!
# Quoted text

`quote` shows a text on one line between quotation marks.  The marks are single unless the text
holds single marks and no double ones; the mark and the backslash are escaped by a backslash,
and so are the characters that cannot be printed.
-/

namespace StylePrune.Text

/-- The mark to quote a text with. -/
def quotationMark (t : Text) : Char := if t.contains '\'' && !t.contains '"' then '"' else '\''

/-- A character as it stands between the given marks. -/
def quoteChar (mark c : Char) : Text :=
  if c = mark ∨ c = '\\' then ['\\', c]
  else if c = '\t' then ['\\', 't']
  else if c = '\n' then ['\\', 'n']
  else if c = '\r' then ['\\', 'r']
  else if isPrintable c then [c]
  else if c.toNat < 0x100 then '\\' :: 'x' :: hex 2 c.toNat
  else if c.toNat < 0x10000 then '\\' :: 'u' :: hex 4 c.toNat
  else '\\' :: 'U' :: hex 8 c.toNat

/-- The text between quotation marks. -/
def quote (t : Text) : Text :=
  let mark := quotationMark t
  mark :: t.flatMap (quoteChar mark) ++ [mark]

/-- The text of a string between quotation marks. -/
def quoteString (s : String) : String := String.ofList (quote s.toList)

end StylePrune.Text
