import Onboarding.Style.Length
import Onboarding.Style.Color

/-!
# Onboarding — resolved styles

A resolved style is the typed view of an element's free style table. An
attribute that is not recognized is left out. Some attributes have two names;
the first one with a usable value counts, except for the alignment, where the
first one that is there counts.

## Results

* `TypedStyle.opacity_le_one` — opacity is never above one.
-/

namespace Onboarding

/-! ## Alignment and weight -/

/-- Where content sits. -/
inductive Alignment where
  | leading
  | center
  | trailing
  | top
  | bottom
deriving DecidableEq

namespace Alignment

/-- The alignment of a word. -/
def ofText? : String → Option Alignment
  | "leading" | "left" | "start" => some leading
  | "center" | "middle" => some center
  | "trailing" | "right" | "end" => some trailing
  | "top" => some top
  | "bottom" => some bottom
  | _ => none

/-- The name of an alignment. -/
def name : Alignment → String
  | leading => "leading"
  | center => "center"
  | trailing => "trailing"
  | top => "top"
  | bottom => "bottom"

end Alignment

/-- The font weight of a style value: a natural number below 2^16, a word, or such a number as a
text. -/
def weight? : Json → Option Nat
  | .number n => n.toNat?.filter (· < Nat.pow 2 16)
  | .string s =>
    match s with
    | "thin" => some 100
    | "light" => some 300
    | "regular" | "normal" => some 400
    | "medium" => some 500
    | "semibold" => some 600
    | "bold" => some 700
    | "heavy" | "black" => some 900
    | _ => Decimal.readNat? (Nat.pow 2 16) s.toList
  | _ => none

/-! ## The style -/

/-- The typed view of a style table. -/
structure TypedStyle where
  width : Option Length
  height : Option Length
  padding : Option Insets
  margin : Option Insets
  spacing : Option Finite
  backgroundColor : Option Color
  color : Option Color
  borderColor : Option Color
  borderWidth : Option Finite
  cornerRadius : Option Finite
  opacity : Option Finite
  fontSize : Option Finite
  fontWeight : Option Nat
  alignment : Option Alignment
deriving DecidableEq

namespace TypedStyle

/-- The number under the first of the names that has one. -/
def number? (style : Table Json) (names : List String) : Option Finite :=
  names.findSome? fun name => (style.get? name).bind Json.toFinite?

/-- The color under the first of the names that has one. -/
def color? (style : Table Json) (names : List String) : Option Color :=
  names.findSome? fun name => ((style.get? name).bind Json.toString?).bind Color.ofText?

/-- The typed view of a style table. -/
def ofTable (style : Table Json) : TypedStyle where
  width := (style.get? "width").bind Length.ofJson?
  height := (style.get? "height").bind Length.ofJson?
  padding := (style.get? "padding").bind Insets.ofJson?
  margin := (style.get? "margin").bind Insets.ofJson?
  spacing := number? style ["spacing", "gap"]
  backgroundColor := color? style ["backgroundColor", "background"]
  color := color? style ["color", "foregroundColor"]
  borderColor := color? style ["borderColor"]
  borderWidth := number? style ["borderWidth"]
  cornerRadius := number? style ["cornerRadius", "borderRadius"]
  opacity := (number? style ["opacity"]).map fun x => x.clamp .zero .one
  fontSize := number? style ["fontSize"]
  fontWeight := (style.get? "fontWeight").bind weight?
  alignment :=
    (((style.get? "alignment").or (style.get? "textAlign")).bind Json.toString?).bind
      Alignment.ofText?

/-- A finite double as JSON. -/
def numberJson (x : Finite) : Json := .number (.float x)

/-- The JSON of a style, without the attributes that are left out. -/
def toJson (s : TypedStyle) : Json :=
  .object (
    Json.optionalMember "width" (s.width.map Length.toJson) ++
    Json.optionalMember "height" (s.height.map Length.toJson) ++
    Json.optionalMember "padding" (s.padding.map Insets.toJson) ++
    Json.optionalMember "margin" (s.margin.map Insets.toJson) ++
    Json.optionalMember "spacing" (s.spacing.map numberJson) ++
    Json.optionalMember "background_color" (s.backgroundColor.map Color.toJson) ++
    Json.optionalMember "color" (s.color.map Color.toJson) ++
    Json.optionalMember "border_color" (s.borderColor.map Color.toJson) ++
    Json.optionalMember "border_width" (s.borderWidth.map numberJson) ++
    Json.optionalMember "corner_radius" (s.cornerRadius.map numberJson) ++
    Json.optionalMember "opacity" (s.opacity.map numberJson) ++
    Json.optionalMember "font_size" (s.fontSize.map numberJson) ++
    Json.optionalMember "font_weight" (s.fontWeight.map fun n => .int n) ++
    Json.optionalMember "alignment" (s.alignment.map fun a => .string a.name))

/-- Opacity is never above one. -/
theorem opacity_le_one {style : Table Json} {x : Finite} (h : (ofTable style).opacity = some x) :
    x.scaled ≤ Finite.one.scaled := by
  simp only [ofTable, Option.map_eq_some_iff] at h
  obtain ⟨y, -, rfl⟩ := h
  simp only [Finite.clamp]
  split
  · decide
  · split <;> omega

end TypedStyle

end Onboarding
