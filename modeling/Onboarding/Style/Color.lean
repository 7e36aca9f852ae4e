import Onboarding.Json.Reader
import Onboarding.Text.Blank

/-!
# Onboarding — colors

A color is written as one of four names or as `#` and hexadecimal digits: three
digits, one for each channel and doubled, or pairs of digits for three or four
channels. The first character of a pair may also be a plus sign.

## Results

* `Color.channel?_digits` — a pair of digits is a number in base sixteen.
-/

namespace Onboarding

/-- A color with opacity, channels from 0 to 255. -/
structure Color where
  red : Nat
  green : Nat
  blue : Nat
  alpha : Nat
deriving DecidableEq

namespace Color

/-- The channel of two characters. -/
def channel? (a b : Char) : Option Nat :=
  if a = '+' then Json.hexDigit? b
  else (Json.hexDigit? a).bind fun high => (Json.hexDigit? b).map fun low => high * 16 + low

/-- The color of the characters after `#`. -/
def ofHex? : List Char → Option Color
  | [r, g, b] => do
    let r ← Json.hexDigit? r
    let g ← Json.hexDigit? g
    let b ← Json.hexDigit? b
    some ⟨r * 17, g * 17, b * 17, 255⟩
  | [r, r', g, g', b, b'] => do
    some ⟨← channel? r r', ← channel? g g', ← channel? b b', 255⟩
  | [r, r', g, g', b, b', a, a'] => do
    some ⟨← channel? r r', ← channel? g g', ← channel? b b', ← channel? a a'⟩
  | _ => none

/-- The color of a name. -/
def ofName? : String → Option Color
  | "white" => some ⟨255, 255, 255, 255⟩
  | "black" => some ⟨0, 0, 0, 255⟩
  | "clear" => some ⟨0, 0, 0, 0⟩
  | "transparent" => some ⟨0, 0, 0, 0⟩
  | _ => none

/-- The color of a text without its blanks at both ends; names in any case. -/
def ofText? (text : String) : Option Color :=
  let s := Text.trim text.toList
  match ofName? (String.ofList (s.map Char.toLower)) with
  | some color => some color
  | none =>
    match s with
    | '#' :: digits => ofHex? digits
    | _ => none

/-- The JSON of a color. -/
def toJson (c : Color) : Json :=
  .object [("r", .int c.red), ("g", .int c.green), ("b", .int c.blue), ("a", .int c.alpha)]

/-- A pair of digits is a number in base sixteen. -/
theorem channel?_digits {a b : Char} {high low : Nat} (ha : Json.hexDigit? a = some high)
    (hb : Json.hexDigit? b = some low) : channel? a b = some (high * 16 + low) := by
  have hne : a ≠ '+' := fun h => by
    subst h
    simp [Json.hexDigit?] at ha
  simp [channel?, hne, ha, hb]

end Color

end Onboarding
