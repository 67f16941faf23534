import JsonShape.Text.Hex
import JsonShape.Text.Printable

/-!
# Quoted names in messages

A name shown in a message stands between double quotes. The quote, the backslash and the four
controls with a short form are escaped with a backslash; every other character that would not show
up as itself is written by its hexadecimal number.
-/

namespace JsonShape.Text

/-- A character between quotes. -/
def quoteChar (c : Char) : List Char :=
  if c = '"' then ['\\', '"']
  else if c = '\\' then ['\\', '\\']
  else if c = '\t' then ['\\', 't']
  else if c = '\n' then ['\\', 'n']
  else if c = '\r' then ['\\', 'r']
  else if c.toNat = 0 then ['\\', '0']
  else if isPrintable c then [c]
  else '\\' :: 'u' :: '{' :: hexDigits c.toNat ++ ['}']

/-- A name between quotes. -/
def quoted (s : String) : String := String.ofList ('"' :: (s.toList.flatMap quoteChar ++ ['"']))

end JsonShape.Text
