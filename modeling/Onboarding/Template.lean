import Onboarding.Variables

/-!
# Onboarding — templates

A template is a text with tokens. A token is a name in braces; the name is not
empty and holds no brace. A token stands for the value of the variable of that
name and is left as written if there is none. Everything else is text. A brace
that opens no token is text, and what a token stands for is not looked at again.

`Template.parse` cuts a text into its segments once; resolving and listing the
tokens both read the segments.

## Results

* `Template.source_parse` — the segments of a text spell the text.
-/

namespace Onboarding

namespace Template

/-! ## Segments -/

/-- A part of a template. -/
inductive Segment where
  | char (c : Char)
  | token (name : List Char)
deriving DecidableEq

/-- The text a segment was read from. -/
def Segment.source : Segment → List Char
  | char c => [c]
  | token name => '{' :: name ++ ['}']

/-- Whether a character may stand in a token's name. -/
def isNameChar (c : Char) : Bool := c != '{' && c != '}'

/-- Segments of a text that follows an opening brace and `name`, the latter last character first. -/
def parseFrom : Option (List Char) → List Char → List Segment
  | none, [] => []
  | some name, [] => .char '{' :: name.reverse.map .char
  | none, c :: rest =>
    if c = '{' then parseFrom (some []) rest else .char c :: parseFrom none rest
  | some name, c :: rest =>
    -- the token ends
    if c = '}' ∧ name ≠ [] then .token name.reverse :: parseFrom none rest
    else if isNameChar c then parseFrom (some (c :: name)) rest
    -- what was open is text, and another token may begin
    else if c = '{' then
      .char '{' :: name.reverse.map .char ++ parseFrom (some []) rest
    -- a closing brace right after an opening one
    else .char '{' :: name.reverse.map .char ++ .char c :: parseFrom none rest

/-- The segments of a text. -/
def parse (text : List Char) : List Segment := parseFrom none text

/-! ## Resolving -/

/-- The text a segment stands for. -/
def Segment.resolve (vars : Variables) : Segment → List Char
  | char c => [c]
  | token name =>
    match vars.get? (String.ofList name) with
    | some v => v.displayChars
    | none => Segment.source (token name)

/-- The name of a token. -/
def Segment.name? : Segment → Option String
  | char _ => none
  | token name => some (String.ofList name)

/-- The text with every token of a known variable replaced by its value. -/
def resolve (text : String) (vars : Variables) : String :=
  String.ofList ((parse text.toList).flatMap (Segment.resolve vars))

/-- The names of all tokens in order. -/
def tokens (text : String) : List String := (parse text.toList).filterMap Segment.name?

/-! ## Segments spell the text -/

private theorem flatMap_source_chars (s : List Char) :
    (s.map Segment.char).flatMap Segment.source = s := by
  induction s with
  | nil => rfl
  | cons c rest ih => simp_all [Segment.source]

/-- The text already taken by an open token. -/
private def pending : Option (List Char) → List Char
  | none => []
  | some name => '{' :: name.reverse

private theorem source_parseFrom (state : Option (List Char)) (text : List Char) :
    (parseFrom state text).flatMap Segment.source = pending state ++ text := by
  induction text generalizing state with
  | nil =>
    cases state with
    | none => rfl
    | some name =>
      simp only [parseFrom, List.flatMap_cons, flatMap_source_chars, pending]
      simp [Segment.source]
  | cons c rest ih =>
    cases state with
    | none =>
      rw [parseFrom]
      split
      · rename_i h
        simp [ih, pending, h]
      · simp [ih, pending, Segment.source]
    | some name =>
      rw [parseFrom]
      split
      · rename_i h
        simp [ih, pending, Segment.source, h.1]
      · split
        · simp [ih, pending]
        · split
          · rename_i h
            simp only [List.cons_append, List.flatMap_cons, List.flatMap_append,
              flatMap_source_chars, ih, pending, Segment.source]
            simp [h]
          · simp only [List.cons_append, List.flatMap_cons, List.flatMap_append,
              flatMap_source_chars, ih, pending, Segment.source]
            simp

/-- The segments of a text spell the text. -/
theorem source_parse (text : List Char) : (parse text).flatMap Segment.source = text := by
  simpa [parse, pending] using source_parseFrom none text

end Template

end Onboarding
