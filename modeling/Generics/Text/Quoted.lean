import Generics.Text.Printable

/-!
# Quoted text

The form in which messages show a text that came from outside: between double
quotes, with the quote, the backslash and everything a reader cannot see written
as an escape.

## Main definitions

* `escape` — how one character is written.
* `quote` — a whole text, with its quotes.
-/

namespace Generics.Text

/-- A character inside quotes.  The quote, the backslash and the four common
control characters have escapes of two characters; any other character that is
not printable is written by its number, in lower-case hexadecimal without
padding. -/
def escape (c : Char) : List Char :=
  if c = '"' then ['\\', '"']
  else if c = '\\' then ['\\', '\\']
  else if c = '\t' then ['\\', 't']
  else if c = '\n' then ['\\', 'n']
  else if c = '\r' then ['\\', 'r']
  else if c = '\x00' then ['\\', '0']
  else if isPrintable c then [c]
  else ['\\', 'u', '\x7b'] ++ Nat.toDigits 16 c.toNat ++ ['\x7d']

/-- A text between double quotes. -/
def quote (s : String) : String :=
  String.ofList ('"' :: s.toList.flatMap escape ++ ['"'])

end Generics.Text
