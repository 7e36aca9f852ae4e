import Onboarding.Json.Writer

/-!
# Onboarding — variables

Variables are named values; the last write to a name counts. `Json.display` is
the text of a value where it is shown to a user or compared as text: strings
stand for themselves, `null` is empty, items are joined by commas and objects
are written as compact JSON.

## Results

* `Variables.get?_overlay` — the overlaid variables win over the base.
-/

namespace Onboarding

/-- Named values. -/
abbrev Variables := Table Json

namespace Variables

/-- `base` with `vars` written over it. -/
def overlay (vars base : Variables) : Variables := base.extend vars

theorem get?_overlay (vars base : Variables) (name : String) :
    (overlay vars base).get? name = (vars.get? name).or (base.get? name) :=
  Table.get?_extend base vars name

end Variables

namespace Json

/-- Texts in turn with a separator between them. -/
def joinTexts (separator : List Char) : List (List Char) → List Char
  | [] => []
  | [s] => s
  | s :: t :: rest => s ++ separator ++ joinTexts separator (t :: rest)

mutual

/-- The characters of a value as it is shown. -/
def displayChars : Json → List Char
  | null => []
  | bool b => compact (bool b)
  | number n => numberText n
  | string s => s.toList
  | array xs => joinTexts [',', ' '] (displayItems xs)
  | object ms => compact (object ms)

/-- The characters of every item as it is shown. -/
def displayItems : List Json → List (List Char)
  | [] => []
  | x :: xs => displayChars x :: displayItems xs

end

/-- The text of a value as it is shown. -/
def display (v : Json) : String := String.ofList v.displayChars

end Json

end Onboarding
