import Onboarding.Text.Printable

/-!
# Onboarding — quoted text

A quoted text shows a text in a message so that nothing in it is invisible: it
stands in quotes, the quote and the backslash have a backslash before them, line
breaks, tabs and the null character have short escapes, and every other
character that does not print is written by its number.
-/

namespace Onboarding.Text

/-- A character inside quotes. -/
def quoteChar (c : Char) : List Char :=
  if c = '\x00' then ['\\', '0']
  else if c = '\t' then ['\\', 't']
  else if c = '\r' then ['\\', 'r']
  else if c = '\n' then ['\\', 'n']
  else if c = '\\' then ['\\', '\\']
  else if c = '"' then ['\\', '"']
  else if isPrinting c then [c]
  else ['\\', 'u', '{'] ++ Nat.toDigits 16 c.toNat ++ ['}']

/-- A text in quotes. -/
def quote (s : String) : String :=
  String.ofList ('"' :: s.toList.flatMap quoteChar ++ ['"'])

end Onboarding.Text
