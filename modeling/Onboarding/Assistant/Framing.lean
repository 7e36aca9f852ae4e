import Onboarding.Text.Blank

/-!
# Onboarding — the document inside a streamed text

A stream is prose around one JSON object, possibly inside a code fence, and ends
with a marker that says whether it is complete. The functions here cut the text
down to the object, one layer each.

A fence counts only if it opens before the first brace. Its first line is
dropped unless it holds a brace, and it ends at the last fence mark that no
closing brace follows. The object runs from the first opening brace to the last
closing one, or to the end of the text.
-/

namespace Onboarding.Framing

/-! ## The marker -/

/-- How a stream ended. -/
inductive Ending where
  | complete
  | truncated
  /-- Without a marker. -/
  | unmarked
deriving DecidableEq

/-- The name of an ending. -/
def Ending.name : Ending → String
  | complete => "complete"
  | truncated => "truncated"
  | unmarked => "unmarked"

/-- The marker of a stream that is complete. -/
def wholeMark : List Char := "[[STREAM_END:complete]]".toList

/-- The marker of a stream that was cut off. -/
def cutMark : List Char := "[[STREAM_END:truncated]]".toList

/-- The text before the marker. -/
def splitMark (text : List Char) : List Char × Ending :=
  let trimmed := Text.trimEnd text
  match Text.cutTail? cutMark trimmed with
  | some body => (body, .truncated)
  | none =>
    match Text.cutTail? wholeMark trimmed with
    | some body => (body, .complete)
    | none => (trimmed, .unmarked)

/-! ## The fence -/

/-- The mark that opens and closes a code fence. -/
def fenceMark : List Char := "```".toList

/-- The text after the first line of a fence, which names a language. -/
def dropTagLine (s : List Char) : List Char :=
  match Text.splitFirst? ['\n'] s with
  | some (line, rest) => if '{' ∈ line then s else rest
  | none => s

/-- The text up to the closing fence. -/
def dropClosingFence (s : List Char) : List Char :=
  match Text.splitLast? fenceMark s with
  | some (inner, rest) => if '}' ∈ rest then s else inner
  | none => s

/-- The text inside a code fence, or the whole text if there is none. -/
def unfence (text : List Char) : List Char :=
  let trimmed := Text.trim text
  if trimmed.head? = some '{' then trimmed
  else
    match Text.splitFirst? fenceMark trimmed with
    | none => trimmed
    | some (before, after) =>
      -- a fence inside the object is part of a string
      if '{' ∈ before then trimmed else Text.trim (dropClosingFence (dropTagLine after))

/-! ## The object -/

/-- From the first opening brace to the last closing brace, or to the end. -/
def outerObject? (text : List Char) : Option (List Char) :=
  match text.dropWhile (· ≠ '{') with
  | [] => none
  | s =>
    match Text.splitLast? ['}'] s with
    | some (inner, _) => some (inner ++ ['}'])
    | none => some s

end Onboarding.Framing
