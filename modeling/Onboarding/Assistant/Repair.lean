import Onboarding.Json.Reader
import Onboarding.Text.Blank

/-!
# Onboarding — repairing JSON that was cut off

Repairing a text goes through it once and remembers the last point at which it
could be closed: after an opened container, a closed one, a string that is no
key, and a number or literal that is complete. The text is cut there and every
container that was open at that point is closed, innermost first. A text whose
outermost container is closed is cut behind it. The text need not be JSON.

## Results

* `Repair.State.run_of_closed` — a text is cut behind its outermost container.
-/

namespace Onboarding.Repair

/-- A container that is open. -/
inductive Bracket where
  | object
  | array
deriving DecidableEq

/-- The character that closes a container. -/
def Bracket.closing : Bracket → Char
  | object => '}'
  | array => ']'

/-- What the current character is part of. -/
inductive Mode where
  | outside
  /-- Inside a string; whether it is a key, and whether a backslash stands before. -/
  | string (isKey escaped : Bool)
  /-- Inside a number or a literal; its characters so far, last first. -/
  | scalar (token : List Char)
deriving DecidableEq

/-- A repair between two characters. Texts are kept last character first. -/
structure State where
  stack : List Bracket := []
  mode : Mode := .outside
  /-- Whether the next string in an object is a key. -/
  expectsKey : Bool := false
  /-- The text so far. -/
  taken : List Char := []
  /-- The text up to the last point at which it could be closed. -/
  safe : List Char := []
  /-- The containers that were open at that point. -/
  safeStack : List Bracket := []
deriving DecidableEq

/-- What a character leads to: more text, or the end of the outermost container. -/
inductive Progress where
  | more (state : State)
  | closed (text : List Char)

/-- Whether a number or a literal ends before the character. -/
def isBreak (c : Char) : Bool :=
  c == ',' || c == '}' || c == ']' || c == ':' || Text.isBlank c

/-- Whether a token is a number or a literal. -/
def isScalar (token : List Char) : Bool :=
  match Document.read? token with
  | some (.number _) | some (.bool _) | some .null => true
  | _ => false

namespace State

/-- Remember that the text so far can be closed. -/
def mark (s : State) : State := { s with safe := s.taken, safeStack := s.stack }

/-- Take a character into the text. -/
def take (s : State) (c : Char) : State := { s with taken := c :: s.taken }

/-- End a number or a literal before the next character. -/
def endScalar (s : State) (token : List Char) : State :=
  let s := { s with mode := .outside }
  if isScalar token.reverse then s.mark else s

/-- Take a character outside of strings, numbers and literals. -/
def stepOutside (s : State) (c : Char) : Progress :=
  let after := s.take c
  if c = '{' then .more { after with stack := .object :: s.stack, expectsKey := true }.mark
  else if c = '[' then .more { after with stack := .array :: s.stack }.mark
  else if c = '}' ∨ c = ']' then
    let after := { after with stack := s.stack.tail, expectsKey := false }.mark
    -- nothing behind the outermost container counts
    if after.stack.isEmpty then .closed after.taken.reverse else .more after
  else if c = '"' then
    let isKey := s.stack.head? == some .object && s.expectsKey
    .more { after with mode := .string isKey false, expectsKey := false }
  else if c = ',' then
    .more { after with expectsKey := s.stack.head? == some .object || s.expectsKey }
  else if c = ':' ∨ Text.isBlank c ∨ s.stack.isEmpty then .more after
  else .more { after with mode := .scalar [c] }

/-- Take a character. -/
def step (s : State) (c : Char) : Progress :=
  match s.mode with
  | .string isKey true => .more { s.take c with mode := .string isKey false }
  | .string isKey false =>
    if c = '\\' then .more { s.take c with mode := .string isKey true }
    else if c = '"' then
      let after := { s.take c with mode := .outside }
      -- an object cannot be closed right behind a key
      .more (if isKey then after else after.mark)
    else .more (s.take c)
  | .scalar token =>
    -- the break is a character of its own
    if isBreak c then (s.endScalar token).stepOutside c
    else .more { s.take c with mode := .scalar (c :: token) }
  | .outside => s.stepOutside c

/-- The repaired text when no more characters come. -/
def finish (s : State) : List Char :=
  let s := match s.mode with
    | .scalar token => s.endScalar token
    | _ => s
  Text.trimEnd s.safe.reverse ++ s.safeStack.map Bracket.closing

/-- Take the characters in turn and repair. -/
def run (s : State) : List Char → List Char
  | [] => s.finish
  | c :: rest =>
    match s.step c with
    | .more next => run next rest
    | .closed text => text

end State

/-- Cut a text back to its last complete value and close what is open there. -/
def repair (text : List Char) : List Char := ({} : State).run text

/-- A text is cut behind its outermost container. -/
theorem State.run_of_closed {s : State} {c : Char} {text rest : List Char}
    (h : s.step c = .closed text) : s.run (c :: rest) = text := by
  simp [State.run, h]

end Onboarding.Repair
