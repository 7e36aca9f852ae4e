import Onboarding.Proofs.Number.Numerals
import Onboarding.Style.Length

/-!
# Onboarding — the notation of lengths

A length is written as a word, as a percentage, or as points with or without `px`.
The grammar says which texts these are and what they denote (`Length.Denotes`). A
number is that of a double with blanks around it, so it may have a name of a double
without digits, or be too large (`Length.Boundless`). Of the words only `infinity`
is also such a number, and of the percentages only `100%` is a word.

## Results

* `Length.ofText?_eq_some_iff` — which texts are lengths, and which.
* `Length.boundless_iff` — which of them have a number that is not finite.
-/

namespace Onboarding.Length

/-! ## The grammar -/

/-- The numbers of a length. -/
def numbers : Length → List Binary64
  | points v => [v]
  | percent v => [v]
  | fill => []
  | auto => []

/-- The words for the whole space. -/
def fillWords : List (List Char) :=
  ["fill".toList, "full".toList, "infinity".toList, "100%".toList]

/-- What the text of a length without blanks at its ends denotes. Of the texts of doubles only
`infinity` is a word, and of the percentages only `100%`. -/
inductive Denotes : List Char → Length → Prop where
  | fill {s : List Char} (hWord : s ∈ fillWords) : Denotes s .fill
  | auto : Denotes "auto".toList .auto
  | percent {share : List Char} {v : Binary64} (hWord : share ≠ "100".toList)
      (hShare : Decimal.Denotes (Text.trim share) v) : Denotes (share ++ ['%']) (.percent v)
  | pixels {s : List Char} {v : Binary64} (hPoints : Decimal.Denotes (Text.trim s) v) :
      Denotes (s ++ ['p', 'x']) (.points v)
  | points {s : List Char} {v : Binary64} (hWord : s ≠ "infinity".toList)
      (hPoints : Decimal.Denotes (Text.trim s) v) : Denotes s (.points v)

/-! ## Reading -/

theorem ofText?_eq (text : String) : ofText? text =
    if Text.trim text.toList ∈ fillWords then some fill
    else if Text.trim text.toList = "auto".toList then some auto
    else match Text.cutTail? ['%'] (Text.trim text.toList) with
      | some share => (readNumber? share).map percent
      | none => (readNumber? ((Text.cutTail? ['p', 'x'] (Text.trim text.toList)).getD
          (Text.trim text.toList))).map points := by
  unfold ofText?
  -- the words are compared as strings in the reader and as lists of characters in the statement
  generalize Text.trim text.toList = s
  have hWord (word : String) : String.ofList s = word ↔ s = word.toList := by
    rw [← String.toList_inj, String.toList_ofList]
  dsimp only
  split
  · next h => rw [if_pos ((hWord _).mp h ▸ by decide)]
  · next h => rw [if_pos ((hWord _).mp h ▸ by decide)]
  · next h => rw [if_pos ((hWord _).mp h ▸ by decide)]
  · next h => rw [if_pos ((hWord _).mp h ▸ by decide)]
  · next h =>
    have hAuto := (hWord _).mp h
    rw [if_neg (hAuto ▸ by decide), if_pos hAuto]
  · next hFill hFull hInfinity hAll hAuto =>
    have hNot : s ∉ fillWords := by
      simp only [fillWords, List.mem_cons, List.not_mem_nil, or_false, ← hWord]
      rintro (h | h | h | h)
      · exact hFill h
      · exact hFull h
      · exact hInfinity h
      · exact hAll h
    exact ((if_neg hNot).trans (if_neg (hAuto ∘ (hWord _).mpr))).symm

section

variable {s : List Char} {v : Binary64}

theorem readNumber?_eq_some_iff : readNumber? s = some v ↔ Decimal.Denotes (Text.trim s) v :=
  Decimal.readBinary64?_eq_some_iff

/-- Only blanks and characters of doubles stand in what is read as a double. -/
theorem not_mem_of_denotes (h : Decimal.Denotes (Text.trim s) v) {c : Char}
    (hBlank : Text.isBlank c = false) (hMark : Decimal.isMark c = false) : c ∉ s := by
  intro hc
  have hTrim : c ∈ Text.trim s := by
    obtain ⟨front, hStart, hFront⟩ := Text.exists_trimStart (Text.trimEnd s)
    obtain ⟨back, hEnd, hBack⟩ := Text.exists_trimEnd s
    rw [hEnd, hStart, List.mem_append, List.mem_append] at hc
    rcases hc with (hc | hc) | hc
    · rw [hFront c hc] at hBlank
      cases hBlank
    · exact hc
    · rw [hBack c hc] at hBlank
      cases hBlank
  rw [h.isMark c hTrim] at hMark
  cases hMark

/-- The text is no word. -/
def Plain (s : List Char) : Prop := s ∉ fillWords ∧ s ≠ "auto".toList

/-- Of the words only `infinity` is the text of a double. -/
theorem plain_of_denotes (h : Decimal.Denotes (Text.trim s) v) (hWord : s ≠ "infinity".toList) :
    Plain s := by
  have hNot {c : Char} := @not_mem_of_denotes s v h c
  constructor
  · simp only [fillWords, List.mem_cons, List.not_mem_nil, or_false]
    rintro (rfl | rfl | hInfinity | rfl)
    · exact @hNot 'l' (by decide) (by decide) (by decide)
    · exact @hNot 'u' (by decide) (by decide) (by decide)
    · exact hWord hInfinity
    · exact @hNot '%' (by decide) (by decide) (by decide)
  · rintro rfl
    exact @hNot 'u' (by decide) (by decide) (by decide)

/-- Of the words only `100%` ends like a percentage or a number of pixels. -/
theorem plain_of_getLast? (h : s.getLast? = some '%' ∨ s.getLast? = some 'x')
    (hWord : s ≠ "100%".toList) : Plain s := by
  constructor
  · simp only [fillWords, List.mem_cons, List.not_mem_nil, or_false]
    rintro (rfl | rfl | rfl | hAll)
    · exact absurd h (by decide)
    · exact absurd h (by decide)
    · exact absurd h (by decide)
    · exact hWord hAll
  · rintro rfl
    exact absurd h (by decide)

theorem cutTail?_eq_none (front : List Char) {last : Char} (h : s.getLast? ≠ some last) :
    Text.cutTail? (front ++ [last]) s = none := by
  cases hCut : Text.cutTail? (front ++ [last]) s with
  | none => rfl
  | some rest =>
    rw [Text.cutTail?_eq_some.mp hCut, ← List.append_assoc] at h
    exact absurd List.getLast?_concat h

/-- A text is read as the length that it denotes. -/
theorem ofText?_eq_some_iff {text : String} {l : Length} :
    ofText? text = some l ↔ Denotes (Text.trim text.toList) l := by
  rw [ofText?_eq]
  generalize Text.trim text.toList = s
  constructor
  · intro h
    -- the forms in the order in which they are tried
    split at h
    · next hWord =>
      cases h
      exact .fill hWord
    · next hWord =>
      split at h
      · next hAuto =>
        cases h
        exact hAuto ▸ .auto
      · split at h
        · next share hCut =>
          obtain ⟨v, hRead, rfl⟩ := Option.map_eq_some_iff.mp h
          obtain rfl := Text.cutTail?_eq_some.mp hCut
          refine .percent (fun hAll => hWord ?_) (readNumber?_eq_some_iff.mp hRead)
          rw [hAll]
          decide
        · obtain ⟨v, hRead, rfl⟩ := Option.map_eq_some_iff.mp h
          have hPoints := readNumber?_eq_some_iff.mp hRead
          cases hCut : Text.cutTail? ['p', 'x'] s with
          | none =>
            rw [hCut, Option.getD_none] at hPoints
            refine .points (fun hInfinity => hWord ?_) hPoints
            rw [hInfinity]
            decide
          | some points =>
            rw [hCut, Option.getD_some] at hPoints
            obtain rfl := Text.cutTail?_eq_some.mp hCut
            exact .pixels hPoints
  · intro h
    cases h with
    | fill hWord => rw [if_pos hWord]
    | auto => rw [if_neg (by decide), if_pos rfl]
    | percent hWord hShare =>
      obtain ⟨hFill, hAuto⟩ := plain_of_getLast? (.inl List.getLast?_concat) fun hAll =>
        hWord (List.append_cancel_right hAll)
      rw [if_neg hFill, if_neg hAuto, Text.cutTail?_eq_some.mpr rfl]
      exact Option.map_eq_some_iff.mpr ⟨_, readNumber?_eq_some_iff.mpr hShare, rfl⟩
    | @pixels s v hPoints =>
      have hLast : (s ++ ['p', 'x']).getLast? = some 'x' := by simp
      obtain ⟨hFill, hAuto⟩ := plain_of_getLast? (.inr hLast) fun hAll => by simp [hAll] at hLast
      have hShare : Text.cutTail? ['%'] (s ++ ['p', 'x']) = none := cutTail?_eq_none [] (by simp)
      rw [if_neg hFill, if_neg hAuto, hShare, Text.cutTail?_eq_some.mpr rfl]
      exact Option.map_eq_some_iff.mpr ⟨v, readNumber?_eq_some_iff.mpr hPoints, rfl⟩
    | @points s v hWord hPoints =>
      obtain ⟨hFill, hAuto⟩ := plain_of_denotes hPoints hWord
      have hShare : Text.cutTail? ['%'] s = none := cutTail?_eq_none [] fun hLast =>
        not_mem_of_denotes hPoints (by decide) (by decide) (List.mem_of_getLast? hLast)
      have hPixels : Text.cutTail? ['p', 'x'] s = none := cutTail?_eq_none ['p'] fun hLast =>
        not_mem_of_denotes hPoints (by decide) (by decide) (List.mem_of_getLast? hLast)
      rw [if_neg hFill, if_neg hAuto, hShare, hPixels]
      exact Option.map_eq_some_iff.mpr ⟨v, readNumber?_eq_some_iff.mpr hPoints, rfl⟩

example : ofText? " infinity " = some .fill := by decide

example : ofText? "-Infinity %" = some (.percent (.infinite true)) := by decide

end

/-! ## Lengths that are not finite -/

/-- The text of a length whose number is not finite. -/
inductive Boundless : List Char → Prop where
  | percent {share : List Char} (hShare : Decimal.Boundless (Text.trim share)) :
      Boundless (share ++ ['%'])
  | pixels {s : List Char} (hPoints : Decimal.Boundless (Text.trim s)) :
      Boundless (s ++ ['p', 'x'])
  | points {s : List Char} (hWord : s ≠ "infinity".toList)
      (hPoints : Decimal.Boundless (Text.trim s)) : Boundless s

/-- The word `100%` does without a number, but would have a finite one. -/
theorem not_boundless_hundred : ¬ Decimal.Boundless (Text.trim "100".toList) := by
  intro h
  obtain ⟨v, hDenotes, hNot⟩ := Decimal.boundless_iff.mp h
  have hRead : Decimal.readUnsigned? "100".toList = some (100, 0) := by decide
  have hHundred := Decimal.Denotes.decimal .none (Decimal.readUnsigned?_eq_some_iff.mp hRead)
  rw [show Text.trim "100".toList = [] ++ "100".toList by decide] at hDenotes
  rw [hDenotes.unique hHundred] at hNot
  exact hNot (Decimal.isFinite_toBinary64_iff.mpr (by decide +kernel))

/-- Which texts are lengths with a number that is not finite. -/
theorem boundless_iff {s : List Char} :
    Boundless s ↔ ∃ l, Denotes s l ∧ ∃ v ∈ l.numbers, ¬ v.IsFinite := by
  constructor
  · intro h
    cases h with
    | percent hShare =>
      obtain ⟨v, hDenotes, hNot⟩ := Decimal.boundless_iff.mp hShare
      refine ⟨_, .percent ?_ hDenotes, v, List.mem_singleton_self v, hNot⟩
      -- a full hundred is the word for `fill`; its share is finite, so it is not this one
      rintro rfl
      exact not_boundless_hundred hShare
    | pixels hPoints =>
      obtain ⟨v, hDenotes, hNot⟩ := Decimal.boundless_iff.mp hPoints
      exact ⟨_, .pixels hDenotes, v, List.mem_singleton_self v, hNot⟩
    | points hWord hPoints =>
      obtain ⟨v, hDenotes, hNot⟩ := Decimal.boundless_iff.mp hPoints
      exact ⟨_, .points hWord hDenotes, v, List.mem_singleton_self v, hNot⟩
  · rintro ⟨l, h, v, hv, hNot⟩
    cases h with
    | fill => cases hv
    | auto => cases hv
    | percent _ hShare =>
      obtain rfl := List.mem_singleton.mp hv
      exact .percent (Decimal.boundless_iff.mpr ⟨v, hShare, hNot⟩)
    | pixels hPoints =>
      obtain rfl := List.mem_singleton.mp hv
      exact .pixels (Decimal.boundless_iff.mpr ⟨v, hPoints, hNot⟩)
    | points hWord hPoints =>
      obtain rfl := List.mem_singleton.mp hv
      exact .points hWord (Decimal.boundless_iff.mpr ⟨v, hPoints, hNot⟩)

end Onboarding.Length
