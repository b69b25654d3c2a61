import Glint.Text.Numeral
import Glint.Text.Unprintable

/-!
# Quoted text in messages

A message shows a text between double quotes. Quotes, backslashes and the usual
control characters are escaped by a backslash and a letter, and characters that
could not be made out by their number in hexadecimal.

## Main definitions

* `Text.quoteChar` — a character inside quotes
* `Text.quoted` — a text between quotes
-/

namespace Glint.Text

/-- A character as it stands between quotes. -/
def quoteChar (c : Char) : List Char :=
  if c = '\x00' then ['\\', '0']
  else if c = '\t' then ['\\', 't']
  else if c = '\r' then ['\\', 'r']
  else if c = '\n' then ['\\', 'n']
  else if c = '"' then ['\\', '"']
  else if c = '\\' then ['\\', '\\']
  else if isUnprintable c then ['\\', 'u', '{'] ++ hexDigits c.toNat ++ ['}']
  else [c]

/-- A text between quotes. -/
def quoted (text : String) : String :=
  String.ofList ('"' :: text.toList.flatMap quoteChar ++ ['"'])

end Glint.Text
