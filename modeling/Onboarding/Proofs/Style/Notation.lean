import Onboarding.Style.Color

/-!
# Onboarding — the notation of colors

A color is a name or `#` with digits, and the grammar says which texts these are
and what they denote (`Denotes`): one digit for each of three channels, standing
for itself twice, or a pair of characters for each of three or four channels. The
grammar leaves open what a pair may be. With two digits it is the grammar of the
notation (`IsPair`); reading also takes a plus sign and a digit for a pair
(`IsSigned`), because it leaves each pair to a reader of numbers, which allows the
sign. On texts without a plus sign the two are one.

## Results

* `channel?_eq_some_iff` — what is read as a channel.
* `ofHex?_eq_some_iff` — which characters after `#` are read.
* `ofText?_denotes` — which texts are read, and as which color.
* `ofText?_of_signed_pairs` — a text with plus signs that is read and is none of
  the notation.
-/

namespace Onboarding.Color

/-! ## The grammar -/

/-- The names of colors. -/
inductive Named : String → Color → Prop where
  | white : Named "white" ⟨255, 255, 255, 255⟩
  | black : Named "black" ⟨0, 0, 0, 255⟩
  | clear : Named "clear" ⟨0, 0, 0, 0⟩
  | transparent : Named "transparent" ⟨0, 0, 0, 0⟩

/-- Two digits are a number in base sixteen. -/
def IsPair (a b : Char) (n : Nat) : Prop :=
  ∃ high low, Json.hexDigit? a = some high ∧ Json.hexDigit? b = some low ∧ n = high * 16 + low

/-- A digit behind a plus sign is a number as well. -/
def IsSigned (a b : Char) (n : Nat) : Prop := a = '+' ∧ Json.hexDigit? b = some n

/-- What the characters after `#` denote if the pairs of `channel` are channels. -/
inductive Digits (channel : Char → Char → Nat → Prop) : List Char → Color → Prop where
  /-- One digit for each channel, which is that digit twice. -/
  | doubled {r g b : Char} {red green blue : Nat} (hRed : IsPair r r red)
      (hGreen : IsPair g g green) (hBlue : IsPair b b blue) :
      Digits channel [r, g, b] ⟨red, green, blue, 255⟩
  | pairs {r r' g g' b b' : Char} {red green blue : Nat} (hRed : channel r r' red)
      (hGreen : channel g g' green) (hBlue : channel b b' blue) :
      Digits channel [r, r', g, g', b, b'] ⟨red, green, blue, 255⟩
  | withAlpha {r r' g g' b b' a a' : Char} {red green blue alpha : Nat} (hRed : channel r r' red)
      (hGreen : channel g g' green) (hBlue : channel b b' blue) (hAlpha : channel a a' alpha) :
      Digits channel [r, r', g, g', b, b', a, a'] ⟨red, green, blue, alpha⟩

/-- What a text without blanks at its ends denotes if the pairs of `channel` are channels. -/
inductive Denotes (channel : Char → Char → Nat → Prop) : List Char → Color → Prop where
  /-- Names count in any case. -/
  | name {s : List Char} {color : Color}
      (hName : Named (String.ofList (s.map Char.toLower)) color) : Denotes channel s color
  | digits {s : List Char} {color : Color} (hDigits : Digits channel s color) :
      Denotes channel ('#' :: s) color

/-! ## Reading -/

theorem ofName?_eq_some_iff {name : String} {color : Color} :
    ofName? name = some color ↔ Named name color := by
  constructor
  · intro h
    unfold ofName? at h
    split at h
    · cases h
      exact .white
    · cases h
      exact .black
    · cases h
      exact .clear
    · cases h
      exact .transparent
    · cases h
  · intro h
    cases h <;> rfl

/-- No name begins with `#`. -/
theorem ofName?_hash (s : List Char) :
    ofName? (String.ofList (('#' :: s).map Char.toLower)) = none := by
  rw [Option.eq_none_iff_forall_not_mem]
  intro color hColor
  have hNamed := ofName?_eq_some_iff.mp hColor
  generalize hName : String.ofList (('#' :: s).map Char.toLower) = name at hNamed
  have hHead := congrArg (fun name => name.toList.head?) hName
  cases hNamed <;> simp at hHead

/-- No digit is a plus sign. -/
theorem ne_plus_of_hexDigit? {c : Char} {n : Nat} (h : Json.hexDigit? c = some n) : c ≠ '+' := by
  rintro rfl
  simp [Json.hexDigit?] at h

theorem channel?_eq_some_iff {a b : Char} {n : Nat} :
    channel? a b = some n ↔ IsPair a b n ∨ IsSigned a b n := by
  constructor
  · intro h
    unfold channel? at h
    split at h
    · next hPlus => exact .inr ⟨hPlus, h⟩
    · obtain ⟨high, hHigh, hRest⟩ := Option.bind_eq_some_iff.mp h
      obtain ⟨low, hLow, hValue⟩ := Option.map_eq_some_iff.mp hRest
      exact .inl ⟨high, low, hHigh, hLow, hValue.symm⟩
  · rintro (⟨high, low, hHigh, hLow, rfl⟩ | ⟨rfl, hDigit⟩)
    · exact channel?_digits hHigh hLow
    · rw [channel?, if_pos rfl, hDigit]

/-- A digit times seventeen is the digit twice. -/
theorem isPair_self_iff {c : Char} {n : Nat} :
    IsPair c c n ↔ ∃ digit, Json.hexDigit? c = some digit ∧ n = digit * 17 := by
  constructor
  · rintro ⟨high, low, hHigh, hLow, rfl⟩
    rw [hHigh, Option.some.injEq] at hLow
    subst hLow
    exact ⟨high, hHigh, by omega⟩
  · rintro ⟨digit, hDigit, rfl⟩
    exact ⟨digit, digit, hDigit, hDigit, by omega⟩

/-- The characters after `#` are read as the grammar says, with the pairs that are read as
channels. -/
theorem ofHex?_eq_some_iff {s : List Char} {color : Color} :
    ofHex? s = some color ↔ Digits (fun a b n => IsPair a b n ∨ IsSigned a b n) s color := by
  simp only [← channel?_eq_some_iff]
  constructor
  · intro h
    -- by the number of characters
    unfold ofHex? at h
    split at h
    · simp only [Option.bind_eq_bind, Option.bind_eq_some_iff, Option.some.injEq] at h
      obtain ⟨red, hRed, green, hGreen, blue, hBlue, rfl⟩ := h
      exact .doubled (isPair_self_iff.mpr ⟨red, hRed, rfl⟩)
        (isPair_self_iff.mpr ⟨green, hGreen, rfl⟩) (isPair_self_iff.mpr ⟨blue, hBlue, rfl⟩)
    · simp only [Option.bind_eq_bind, Option.bind_eq_some_iff, Option.some.injEq] at h
      obtain ⟨red, hRed, green, hGreen, blue, hBlue, rfl⟩ := h
      exact .pairs hRed hGreen hBlue
    · simp only [Option.bind_eq_bind, Option.bind_eq_some_iff, Option.some.injEq] at h
      obtain ⟨red, hRed, green, hGreen, blue, hBlue, alpha, hAlpha, rfl⟩ := h
      exact .withAlpha hRed hGreen hBlue hAlpha
    · cases h
  · intro h
    cases h with
    | doubled hRed hGreen hBlue =>
      obtain ⟨red, hRedDigit, rfl⟩ := isPair_self_iff.mp hRed
      obtain ⟨green, hGreenDigit, rfl⟩ := isPair_self_iff.mp hGreen
      obtain ⟨blue, hBlueDigit, rfl⟩ := isPair_self_iff.mp hBlue
      simp [ofHex?, hRedDigit, hGreenDigit, hBlueDigit]
    | pairs hRed hGreen hBlue => simp [ofHex?, hRed, hGreen, hBlue]
    | withAlpha hRed hGreen hBlue hAlpha => simp [ofHex?, hRed, hGreen, hBlue, hAlpha]

/-- A text is read as the grammar says, with the pairs that are read as channels. -/
theorem ofText?_eq_some_iff {text : String} {color : Color} :
    ofText? text = some color ↔
      Denotes (fun a b n => IsPair a b n ∨ IsSigned a b n) (Text.trim text.toList) color := by
  unfold ofText?
  constructor
  · intro h
    simp only at h
    split at h
    · next named hNamed =>
      cases h
      exact .name (ofName?_eq_some_iff.mp hNamed)
    · split at h
      · next digits hText =>
        rw [hText]
        exact .digits (ofHex?_eq_some_iff.mp h)
      · cases h
  · intro h
    generalize Text.trim text.toList = s at h
    cases h with
    | name hName =>
      simp only [ofName?_eq_some_iff.mpr hName]
    | digits hDigits =>
      -- no color name begins with a hash, so the names are passed
      simp only [ofName?_hash]
      exact ofHex?_eq_some_iff.mpr hDigits

/-! ## Texts without a plus sign -/

theorem Denotes.mono {channel other : Char → Char → Nat → Prop} {s : List Char} {color : Color}
    (hChannel : ∀ a ∈ s, ∀ b n, channel a b n → other a b n) (h : Denotes channel s color) :
    Denotes other s color := by
  cases h with
  | name hName => exact .name hName
  | digits hDigits =>
    refine .digits ?_
    cases hDigits with
    | doubled hRed hGreen hBlue => exact .doubled hRed hGreen hBlue
    | pairs hRed hGreen hBlue =>
      exact .pairs (hChannel _ (by simp) _ _ hRed) (hChannel _ (by simp) _ _ hGreen)
        (hChannel _ (by simp) _ _ hBlue)
    | withAlpha hRed hGreen hBlue hAlpha =>
      exact .withAlpha (hChannel _ (by simp) _ _ hRed) (hChannel _ (by simp) _ _ hGreen)
        (hChannel _ (by simp) _ _ hBlue) (hChannel _ (by simp) _ _ hAlpha)

theorem mem_of_mem_trim {s : List Char} {c : Char} (h : c ∈ Text.trim s) : c ∈ s := by
  obtain ⟨front, hStart, -⟩ := Text.exists_trimStart (Text.trimEnd s)
  obtain ⟨back, hEnd, -⟩ := Text.exists_trimEnd s
  have hTrim : c ∈ Text.trimEnd s := by
    rw [hStart]
    exact List.mem_append_right _ h
  rw [hEnd]
  exact List.mem_append_left _ hTrim

/-- A text is read as a color exactly if it denotes that color by the grammar in which a pair is two
digits or a plus sign and a digit. A text without a plus sign is read exactly if it denotes the
color by the grammar in which a pair is two digits. -/
theorem ofText?_denotes (text : String) (color : Color) :
    (ofText? text = some color ↔
      Denotes (fun a b n => IsPair a b n ∨ IsSigned a b n) (Text.trim text.toList) color) ∧
    ('+' ∉ text.toList →
      (ofText? text = some color ↔ Denotes IsPair (Text.trim text.toList) color)) := by
  refine ⟨ofText?_eq_some_iff, fun hPlus => ?_⟩
  rw [ofText?_eq_some_iff]
  constructor
  · intro h
    refine h.mono fun a hMem b n hChannel => ?_
    rcases hChannel with hPair | ⟨rfl, -⟩
    · exact hPair
    · exact absurd (mem_of_mem_trim hMem) hPlus
  · intro h
    exact h.mono fun a _ b n hPair => .inl hPair

/-- Blanks at the ends do not count, and digits may be of either case. -/
theorem ofText?_denotes_doubled :
    '+' ∉ " #0aF ".toList ∧ Denotes IsPair (Text.trim " #0aF ".toList) ⟨0, 170, 255, 255⟩ := by
  have hPlus : '+' ∉ " #0aF ".toList := by decide
  have hRead : ofText? " #0aF " = some ⟨0, 170, 255, 255⟩ := by decide
  exact ⟨hPlus, ((ofText?_denotes " #0aF " _).2 hPlus).mp hRead⟩

/-- Three digits with plus signs are read as a color and denote none. -/
theorem ofText?_of_signed_pairs :
    ofText? "#+1+2+3" = some ⟨1, 2, 3, 255⟩ ∧
      ∀ color, ¬ Denotes IsPair (Text.trim "#+1+2+3".toList) color := by
  refine ⟨by decide, fun color h => ?_⟩
  have hTrim : Text.trim "#+1+2+3".toList = ['#', '+', '1', '+', '2', '+', '3'] := by decide
  rw [hTrim] at h
  cases h with
  | name hName =>
    rw [← ofName?_eq_some_iff, ofName?_hash] at hName
    cases hName
  | digits hDigits =>
    cases hDigits with
    | pairs hRed =>
      obtain ⟨high, low, hHigh, -⟩ := hRed
      exact ne_plus_of_hexDigit? hHigh rfl

end Onboarding.Color
