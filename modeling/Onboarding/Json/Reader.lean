import Onboarding.Json.Numeral

/-!
# Onboarding — reading JSON text

A `Json.Reader` is a pushdown automaton over characters: its stack holds the
containers that are open with what they hold so far, its phase says what may
come next. Text is a document when the automaton accepts every character of it
and has one complete value at the end.

A value at a depth of more than 127 containers, an object with an ill-formed
key, a string with a lone surrogate and a numeral beyond the doubles are
unreadable parts of the document.

## Results

* `Reader.run_append` — reading two texts in turn is reading them together.
-/

namespace Onboarding.Json

/-! ## Strings -/

/-- A piece of a string literal: a character or a 16-bit unit written as an escape. -/
inductive Piece where
  | char (c : Char)
  | unit (n : Nat)
deriving DecidableEq

/-- The characters of a string literal. Units of a surrogate pair must be next to each other. -/
def charsOf? : List Piece → Option (List Char)
  | [] => some []
  | .char c :: rest => (charsOf? rest).map (c :: ·)
  | .unit n :: rest =>
    if n < 0xD800 ∨ 0xDFFF < n then (charsOf? rest).map (Char.ofNat n :: ·)
    else if n < 0xDC00 then
      match rest with
      | .unit m :: rest =>
        if 0xDC00 ≤ m ∧ m ≤ 0xDFFF then
          (charsOf? rest).map (Char.ofNat ((n - 0xD800) * 0x400 + (m - 0xDC00) + 0x10000) :: ·)
        else none
      | _ => none
    else none

/-- Where a string literal stands between two characters. -/
inductive Escape where
  | none
  /-- After a backslash. -/
  | started
  /-- After `\u` and some hexadecimal digits of this value. -/
  | hex (digits value : Nat)
deriving DecidableEq

/-- The value of a hexadecimal digit. -/
def hexDigit? (c : Char) : Option Nat :=
  if c.isDigit then some (c.toNat - 48)
  else if 'a' ≤ c ∧ c ≤ 'f' then some (c.toNat - 87)
  else if 'A' ≤ c ∧ c ≤ 'F' then some (c.toNat - 55)
  else none

/-- The character of an escape with one letter. -/
def escaped? : Char → Option Char
  | '"' => some '"'
  | '\\' => some '\\'
  | '/' => some '/'
  | 'b' => some '\x08'
  | 'f' => some '\x0c'
  | 'n' => some '\n'
  | 'r' => some '\r'
  | 't' => some '\t'
  | _ => none

/-! ## The automaton -/

/-- A container that is open, with what it holds so far, last things first. -/
inductive Frame where
  | array (items : List Document)
  /-- The members, the key of the member that is being read, and whether all keys are well
  formed. -/
  | object (members : List (String × Document)) (key : String) (keysReadable : Bool)

/-- What may come next. -/
inductive Phase where
  /-- A value. -/
  | value
  /-- A value or the end of the array that has just begun. -/
  | firstItem
  /-- A key or the end of the object that has just begun. -/
  | firstKey
  /-- A key. -/
  | key
  | colon
  /-- A comma or the end of the container. -/
  | separator
  /-- Inside a string, which may be a key; the pieces so far, last first. -/
  | string (isKey : Bool) (pieces : List Piece) (escape : Escape)
  /-- Inside a literal name, whose other characters must follow. -/
  | name (rest : List Char) (value : Document)
  /-- Inside a numeral; its characters so far, last first. -/
  | numeral (text : List Char) (part : Numeral.Part)
  /-- Nothing but blanks after the complete document. -/
  | done (document : Document)

/-- The reader between two characters. -/
structure Reader where
  stack : List Frame := []
  phase : Phase := .value

/-- The deepest nesting of containers whose values are readable. -/
def maxDepth : Nat := 127

/-- The blanks of JSON. -/
def isSpace (c : Char) : Bool := c == ' ' || c == '\t' || c == '\n' || c == '\r'

namespace Reader

/-- Put a complete value into the innermost container. -/
def complete (stack : List Frame) (v : Document) : Reader :=
  match stack with
  | [] => { stack := [], phase := .done v }
  | .array items :: rest => { stack := .array (v :: items) :: rest, phase := .separator }
  | .object members key readable :: rest =>
    { stack := .object ((key, v) :: members) key readable :: rest, phase := .separator }

/-- End the innermost container. -/
def close (stack : List Frame) (c : Char) : Option Reader :=
  let tooDeep := maxDepth < stack.length
  match stack with
  | .array items :: rest =>
    if c = ']' then
      some (complete rest (if tooDeep then .unreadable else .array items.reverse))
    else none
  | .object members _ readable :: rest =>
    if c = '}' then
      some (complete rest
        (if tooDeep || !readable then .unreadable else .object members.reverse))
    else none
  | [] => none

/-- Begin a value. -/
def begin (stack : List Frame) (c : Char) : Option Reader :=
  match c with
  | '[' => some { stack := .array [] :: stack, phase := .firstItem }
  | '{' => some { stack := .object [] "" true :: stack, phase := .firstKey }
  | '"' => some { stack, phase := .string false [] .none }
  | 't' => some { stack, phase := .name ['r', 'u', 'e'] (.bool true) }
  | 'f' => some { stack, phase := .name ['a', 'l', 's', 'e'] (.bool false) }
  | 'n' => some { stack, phase := .name ['u', 'l', 'l'] .null }
  | _ => (Numeral.Part.first? c).map fun part => { stack, phase := .numeral [c] part }

/-- The value of a numeral whose characters are given last first. -/
def numberOf (text : List Char) : Document :=
  match Numeral.read? text.reverse with
  | some n => .number n
  | none => .unreadable

/-- The string of pieces given last first. -/
def stringOf? (pieces : List Piece) : Option String :=
  (charsOf? pieces.reverse).map String.ofList

/-- Take a character where a comma or the end of the innermost container must come. -/
def separate (stack : List Frame) (c : Char) : Option Reader :=
  if isSpace c then some { stack, phase := .separator }
  else if c = ',' then
    match stack with
    | .array _ :: _ => some { stack, phase := .value }
    | .object .. :: _ => some { stack, phase := .key }
    | [] => none
  else close stack c

/-- Take a character after a complete value. -/
def follow (r : Reader) (c : Char) : Option Reader :=
  match r.phase with
  | .done _ => if isSpace c then some r else none
  | _ => separate r.stack c

/-- End a string literal. -/
def endString (stack : List Frame) (isKey : Bool) (pieces : List Piece) : Reader :=
  let text := stringOf? pieces
  if isKey then
    match stack with
    | .object members _ readable :: rest =>
      { stack := .object members (text.getD "") (readable && text.isSome) :: rest, phase := .colon }
    | _ => { stack, phase := .colon }
  else
    complete stack (match text with
      | some s => .string s
      | none => .unreadable)

/-- Take a character inside a string literal. -/
def inString (stack : List Frame) (isKey : Bool) (pieces : List Piece) (escape : Escape)
    (c : Char) : Option Reader :=
  match escape with
  | .none =>
    if c = '"' then some (endString stack isKey pieces)
    else if c = '\\' then some { stack, phase := .string isKey pieces .started }
    else if c.toNat < 0x20 then none
    else some { stack, phase := .string isKey (.char c :: pieces) .none }
  | .started =>
    if c = 'u' then some { stack, phase := .string isKey pieces (.hex 0 0) }
    else (escaped? c).map fun e => { stack, phase := .string isKey (.char e :: pieces) .none }
  | .hex digits value =>
    (hexDigit? c).map fun h =>
      let value := value * 16 + h
      if digits = 3 then { stack, phase := .string isKey (.unit value :: pieces) .none }
      else { stack, phase := .string isKey pieces (.hex (digits + 1) value) }

/-- Take one character. -/
def step (r : Reader) (c : Char) : Option Reader :=
  match r.phase with
  | .value => if isSpace c then some r else begin r.stack c
  | .firstItem =>
    if isSpace c then some r else if c = ']' then close r.stack c else begin r.stack c
  | .firstKey =>
    if isSpace c then some r
    else if c = '}' then close r.stack c
    else if c = '"' then some { r with phase := .string true [] .none }
    else none
  | .key =>
    if isSpace c then some r
    else if c = '"' then some { r with phase := .string true [] .none }
    else none
  | .colon =>
    if isSpace c then some r
    else if c = ':' then some { r with phase := .value }
    else none
  | .separator => separate r.stack c
  | .string isKey pieces escape => inString r.stack isKey pieces escape c
  | .name rest value =>
    match rest with
    | d :: rest =>
      if c = d then
        some (if rest = [] then complete r.stack value else { r with phase := .name rest value })
      else none
    | [] => none
  | .numeral text part =>
    match part.next? c with
    | some part => some { r with phase := .numeral (c :: text) part }
    -- a numeral has no end of its own: the character after it is taken as well
    | none => if part.isComplete then follow (complete r.stack (numberOf text)) c else none
  | .done _ => if isSpace c then some r else none

/-- Take the characters in turn. -/
def run (r : Reader) : List Char → Option Reader
  | [] => some r
  | c :: rest => (r.step c).bind fun next => run next rest

/-- The document, if it is complete. -/
def finish (r : Reader) : Option Document :=
  match r.phase with
  | .done v => some v
  -- the text may end with a numeral
  | .numeral text part => if part.isComplete ∧ r.stack.isEmpty then some (numberOf text) else none
  | _ => none

/-- Reading two texts in turn is reading them together. -/
theorem run_append (r : Reader) (s t : List Char) :
    r.run (s ++ t) = (r.run s).bind fun next => next.run t := by
  induction s generalizing r with
  | nil => simp [run]
  | cons c rest ih =>
    simp only [List.cons_append, run]
    cases r.step c with
    | none => rfl
    | some next => simpa using ih next

end Reader

end Json

/-- The document that a text is. -/
def Document.read? (s : List Char) : Option Document :=
  ((({} : Json.Reader).run s)).bind Json.Reader.finish

/-- The value that a text is, if all of it is readable. -/
def Json.read? (s : List Char) : Option Json := (Document.read? s).bind Document.toJson?

end Onboarding
