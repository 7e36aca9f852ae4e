import Onboarding.Text.Blank

/-!
# Onboarding — watching one field of a JSON object as it arrives

A field scanner reads an object that arrives in chunks and gives the value of
one of its own string fields as soon as the closing quote has arrived. It looks
at the first object of the text only, and at no member of what lies inside it.
A character after a backslash stands for itself here.

## Results

* `FieldScanner.advance_append` — scanning two texts in turn is scanning them
  together.
-/

namespace Onboarding

namespace FieldScanner

/-- What the scanner expects of the object it watches. -/
inductive Place where
  | key
  | colon
  | value
  | afterValue
deriving DecidableEq

/-- A string literal the scanner is inside of. -/
structure Literal where
  /-- The characters so far, last first, if they matter. -/
  captured : Option (List Char)
  /-- Whether a backslash stands before. -/
  escaped : Bool := false
deriving DecidableEq

end FieldScanner

open FieldScanner in
/-- A scanner between two characters. -/
structure FieldScanner where
  /-- The name of the field. -/
  key : List Char
  /-- How many containers are open. -/
  depth : Nat := 0
  place : Place := .key
  literal : Option Literal := none
  /-- Whether the last key was the field's name. -/
  isWatched : Bool := false
  /-- Whether the object has ended. -/
  hasEnded : Bool := false
  found : Option (List Char) := none
deriving DecidableEq

namespace FieldScanner

/-- A scanner for a field. -/
def ofKey (key : String) : FieldScanner := { key := key.toList }

/-- Whether nothing can change any more. -/
def isSettled (s : FieldScanner) : Bool := s.hasEnded || s.found.isSome

/-- Begin a string literal. -/
def openLiteral (s : FieldScanner) : FieldScanner :=
  let matters := s.depth = 1 ∧ (s.place = .key ∨ (s.place = .value ∧ s.isWatched))
  { s with
    literal := some { captured := if matters then some [] else none }
    place := if s.depth = 1 ∧ s.place = .value ∧ ¬ matters then .afterValue else s.place }

/-- End a string literal. -/
def closeLiteral (s : FieldScanner) (literal : Literal) : FieldScanner :=
  let s := { s with literal := none }
  match literal.captured, s.place with
  | some text, .key => { s with isWatched := text.reverse = s.key, place := .colon }
  | some text, .value =>
    let s := { s with place := .afterValue }
    if s.isWatched ∧ s.found = none then { s with found := some text.reverse } else s
  | _, _ => s

/-- Take a character inside a string literal. -/
def stepLiteral (s : FieldScanner) (literal : Literal) (c : Char) : FieldScanner :=
  let push (literal : Literal) : Literal :=
    { captured := literal.captured.map (c :: ·), escaped := false }
  if literal.escaped then { s with literal := some (push literal) }
  else if c = '\\' then { s with literal := some { literal with escaped := true } }
  else if c = '"' then s.closeLiteral literal
  else { s with literal := some (push literal) }

/-- Take a character inside the object and outside of string literals. -/
def stepObject (s : FieldScanner) (c : Char) : FieldScanner :=
  if c = '"' then s.openLiteral
  else if c = '{' ∨ c = '[' then
    -- a container is the value of its field
    { s with place := if s.depth = 1 then .afterValue else s.place, depth := s.depth + 1 }
  else if c = '}' ∨ c = ']' then
    { s with depth := s.depth - 1, hasEnded := s.depth = 1 }
  else if c = ':' ∧ s.depth = 1 ∧ s.place = .colon then { s with place := .value }
  else if c = ',' ∧ s.depth = 1 then { s with place := .key }
  -- a number or a literal
  else if s.depth = 1 ∧ s.place = .value ∧ ¬ Text.isBlank c then { s with place := .afterValue }
  else s

/-- Take a character. -/
def step (s : FieldScanner) (c : Char) : FieldScanner :=
  if s.depth = 0 then
    -- prose before the object
    if c = '{' then { s with depth := 1, place := .key } else s
  else
    match s.literal with
    | some literal => s.stepLiteral literal c
    | none => s.stepObject c

/-- Take characters in turn until nothing can change any more. -/
def advance (s : FieldScanner) : List Char → FieldScanner
  | [] => s
  | c :: rest => if s.isSettled then s else advance (s.step c) rest

/-- Take a chunk; the value if it is complete for the first time. -/
def push (s : FieldScanner) (chunk : List Char) : FieldScanner × Option (List Char) :=
  let next := s.advance chunk
  (next, if s.isSettled then none else next.found)

theorem advance_of_isSettled {s : FieldScanner} (h : s.isSettled = true) (t : List Char) :
    s.advance t = s := by
  cases t <;> simp [advance, h]

/-- Scanning two texts in turn is scanning them together. -/
theorem advance_append (s : FieldScanner) (t u : List Char) :
    s.advance (t ++ u) = (s.advance t).advance u := by
  induction t generalizing s with
  | nil => rfl
  | cons c rest ih =>
    simp only [List.cons_append, advance]
    split
    · rename_i h
      exact (advance_of_isSettled h u).symm
    · exact ih _

end FieldScanner

end Onboarding
