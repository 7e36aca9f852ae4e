import Onboarding.Json.Record
import Onboarding.Number.Decimal
import Onboarding.Text.Blank

/-!
# Onboarding — lengths

A length along one axis is a number of points, a share of the space, or a rule.
Insets are numbers of points at the four edges. Both are read from style values; a number
in a text may have any spelling that a double has, also `inf` and `nan`.
-/

namespace Onboarding

/-- A double as JSON; what is not finite is `null`. -/
def Binary64.toJson : Binary64 → Json
  | .finite x => .number (.float x)
  | _ => .null

/-! ## Lengths along one axis -/

/-- A length along one axis. -/
inductive Length where
  | points (value : Binary64)
  | percent (value : Binary64)
  | fill
  | auto
deriving DecidableEq

namespace Length

/-- The double of a text without its blanks at both ends. -/
def readNumber? (s : List Char) : Option Binary64 := Decimal.readBinary64? (Text.trim s)

/-- The length of a text: a word, a percentage, or points with or without `px`. -/
def ofText? (text : String) : Option Length :=
  let s := Text.trim text.toList
  match String.ofList s with
  | "fill" | "full" | "infinity" | "100%" => some fill
  | "auto" => some auto
  | _ =>
    match Text.cutTail? ['%'] s with
    | some share => (readNumber? share).map percent
    | none => (readNumber? ((Text.cutTail? ['p', 'x'] s).getD s)).map points

/-- The length of a style value. -/
def ofJson? : Json → Option Length
  | .number n => some (points (.finite n.toFinite))
  | .string s => ofText? s
  | _ => none

/-- The JSON of a length. -/
def toJson : Length → Json
  | points v => .object [("unit", .string "points"), ("value", v.toJson)]
  | percent v => .object [("unit", .string "percent"), ("value", v.toJson)]
  | fill => .object [("unit", .string "fill")]
  | auto => .object [("unit", .string "auto")]

end Length

/-! ## Insets -/

/-- Points at the four edges. -/
structure Insets where
  top : Finite
  right : Finite
  bottom : Finite
  left : Finite
deriving DecidableEq

namespace Insets

/-- The same number at every edge. -/
def everywhere (x : Finite) : Insets := ⟨x, x, x, x⟩

/-- The insets of a style value: a number, or an object in which an edge's own number counts more
than that of its axis. -/
def ofJson? : Json → Option Insets
  | .number n => some (everywhere n.toFinite)
  | .object ms =>
    let number (name : String) : Option Finite := (Entries.get? name ms).bind Json.toFinite?
    let edge (name axis : String) : Finite := ((number name).or (number axis)).getD .zero
    some ⟨edge "top" "vertical", edge "right" "horizontal", edge "bottom" "vertical",
      edge "left" "horizontal"⟩
  | _ => none

/-- The JSON of insets. -/
def toJson (i : Insets) : Json :=
  .object [("top", .number (.float i.top)), ("right", .number (.float i.right)),
    ("bottom", .number (.float i.bottom)), ("left", .number (.float i.left))]

end Insets

end Onboarding
