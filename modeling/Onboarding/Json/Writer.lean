import Onboarding.Json.Basic
import Onboarding.Number.Shortest

/-!
# Onboarding — writing JSON text

The compact text of a value has no blanks; the indented one puts every item and
member on a line of its own, two blanks deeper than its container. Members are
written in the order they stand in. Strings escape the quote, the backslash and
the control characters below U+0020, nothing else.

The writers put a text in front of a given rest, which keeps them linear and
lets a law speak about what follows a value.
-/

namespace Onboarding.Json

/-! ## Strings and numbers -/

/-- The last hexadecimal digit of a number. -/
def hexChar (n : Nat) : Char := Nat.digitChar (n % 16)

/-- A character inside a string literal. -/
def escapeChar (c : Char) : List Char :=
  if c = '"' then ['\\', '"']
  else if c = '\\' then ['\\', '\\']
  else if c = '\x08' then ['\\', 'b']
  else if c = '\x0c' then ['\\', 'f']
  else if c = '\n' then ['\\', 'n']
  else if c = '\r' then ['\\', 'r']
  else if c = '\t' then ['\\', 't']
  else if c.toNat < 0x20 then ['\\', 'u', '0', '0', hexChar (c.toNat / 16), hexChar c.toNat]
  else [c]

/-- The characters of a string literal without its quotes. -/
def escapeChars (s rest : List Char) : List Char :=
  s.foldr (fun c acc => escapeChar c ++ acc) rest

/-- A string literal. -/
def stringText (s : String) (rest : List Char) : List Char :=
  '"' :: escapeChars s.toList ('"' :: rest)

/-- A number. -/
def numberText : Number → List Char
  | .int n => Shortest.intText n
  | .float x => Shortest.text x

/-! ## Compact text -/

mutual

/-- The compact text of a value in front of `rest`. -/
def compactOnto : Json → List Char → List Char
  | null, rest => 'n' :: 'u' :: 'l' :: 'l' :: rest
  | bool true, rest => 't' :: 'r' :: 'u' :: 'e' :: rest
  | bool false, rest => 'f' :: 'a' :: 'l' :: 's' :: 'e' :: rest
  | number n, rest => numberText n ++ rest
  | string s, rest => stringText s rest
  | array [], rest => '[' :: ']' :: rest
  | array (x :: xs), rest => '[' :: compactOnto x (compactItems xs rest)
  | object [], rest => '{' :: '}' :: rest
  | object ((k, x) :: ms), rest =>
    '{' :: stringText k (':' :: compactOnto x (compactMembers ms rest))

/-- The items after the first one and the end of the array. -/
def compactItems : List Json → List Char → List Char
  | [], rest => ']' :: rest
  | x :: xs, rest => ',' :: compactOnto x (compactItems xs rest)

/-- The members after the first one and the end of the object. -/
def compactMembers : List (String × Json) → List Char → List Char
  | [], rest => '}' :: rest
  | (k, x) :: ms, rest => ',' :: stringText k (':' :: compactOnto x (compactMembers ms rest))

end

/-- The compact text of a value. -/
def compact (v : Json) : List Char := compactOnto v []

/-- The compact text of a value as a string. -/
def compactText (v : Json) : String := String.ofList v.compact

/-! ## Indented text -/

/-- The start of a line at a depth. -/
def newline (depth : Nat) (rest : List Char) : List Char :=
  '\n' :: (List.replicate (2 * depth) ' ' ++ rest)

mutual

/-- The indented text of a value at a depth in front of `rest`. -/
def indentedOnto (depth : Nat) : Json → List Char → List Char
  | array [], rest => '[' :: ']' :: rest
  | array (x :: xs), rest =>
    '[' :: newline (depth + 1) (indentedOnto (depth + 1) x (indentedItems depth xs rest))
  | object [], rest => '{' :: '}' :: rest
  | object ((k, x) :: ms), rest =>
    '{' :: newline (depth + 1) (stringText k (':' :: ' ' ::
      indentedOnto (depth + 1) x (indentedMembers depth ms rest)))
  | null, rest => compactOnto null rest
  | bool b, rest => compactOnto (bool b) rest
  | number n, rest => compactOnto (number n) rest
  | string s, rest => compactOnto (string s) rest

/-- The items after the first one and the end of the array. -/
def indentedItems (depth : Nat) : List Json → List Char → List Char
  | [], rest => newline depth (']' :: rest)
  | x :: xs, rest =>
    ',' :: newline (depth + 1) (indentedOnto (depth + 1) x (indentedItems depth xs rest))

/-- The members after the first one and the end of the object. -/
def indentedMembers (depth : Nat) : List (String × Json) → List Char → List Char
  | [], rest => newline depth ('}' :: rest)
  | (k, x) :: ms, rest =>
    ',' :: newline (depth + 1) (stringText k (':' :: ' ' ::
      indentedOnto (depth + 1) x (indentedMembers depth ms rest)))

end

/-- The indented text of a value. -/
def indentedText (v : Json) : String := String.ofList (indentedOnto 0 v [])

end Onboarding.Json
