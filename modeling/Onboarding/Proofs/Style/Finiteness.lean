import Onboarding.Proofs.Json.Extent
import Onboarding.Proofs.Style.Lengths
import Onboarding.Proofs.Wire.Fields
import Onboarding.Style.Resolved

/-!
# Onboarding — the numbers of a resolved style

The numbers of a style are points and shares of lengths, insets, and plain numbers.
All but those of lengths are read from JSON numbers only, which are finite. A length
may also be written as a text, and the grammar says which texts these are and what
they denote (`Length.Denotes`). Its number is read as a double, so it may be one of
the names of doubles without digits, or too large (`Length.Boundless`). These texts
at a width or a height are all that brings a number that is not finite into a style
(`TypedStyle.numbers?_ofTable`).

## Results

* `Number.units_toFinite_lt` — JSON numbers are finite.
* `Length.ofText?_eq_some_iff` — which texts are lengths, and which.
* `Length.boundless_iff` — which of them have a number that is not finite.
* `TypedStyle.numbers?_ofTable` — which attributes of a style are left out, and
  which have a number that is not finite.
* `TypedStyle.width_ofTable_inf` — the width `inf` is a number of points that is
  not finite.
-/

namespace Onboarding

/-! ## JSON numbers -/

/-- An integer of the 64-bit ranges, signed or unsigned, or a double below the limit. -/
def Number.Proper : Number → Prop
  | int n => (int n).InRange
  | float x => x.units < Units.limit

/-- A proper number is a finite double. -/
theorem Number.units_toFinite_lt {n : Number} (h : n.Proper) : n.toFinite.units < Units.limit := by
  cases n with
  | int n =>
    have hEdge : Nat.pow 2 64 < Units.edge := by decide +kernel
    obtain ⟨hLow, hHigh⟩ := h
    have hHalf : Nat.pow 2 63 ≤ Nat.pow 2 64 := by decide
    exact Finite.units_ofInt_lt (by omega)
  | float x => exact h

/-- What is found under a key is one of the entries. -/
theorem Entries.mem_of_get? {α : Type} {key : String} {v : α} {entries : List (String × α)}
    (h : get? key entries = some v) : (key, v) ∈ entries := by
  induction entries with
  | nil => cases h
  | cons entry rest ih =>
    rw [get?] at h
    split at h
    · next hKey =>
      cases h
      rw [hKey]
      exact List.mem_cons_self
    · exact List.mem_cons_of_mem _ (ih h)

/-- A member of an object has numbers of the kind of the object's. -/
theorem Document.Fits.of_get? {P : Number → Prop} {depth : Nat} {ms : List (String × Json)}
    (h : (Json.object ms).toDocument.Fits P depth) {key : String} {v : Json}
    (hGet : Entries.get? key ms = some v) : ∃ inner, v.toDocument.Fits P inner := by
  obtain ⟨inner, -, hMembers⟩ := h.members
  refine ⟨inner, hMembers (key, v.toDocument) ?_⟩
  rw [Json.toDocumentMembers_eq]
  exact List.mem_map_of_mem (Entries.mem_of_get? hGet)

/-- A JSON number is finite. -/
theorem Json.units_toFinite?_lt {v : Json} {depth : Nat} (h : v.toDocument.Fits Number.Proper depth)
    {x : Finite} (hNumber : v.toFinite? = some x) : x.units < Units.limit := by
  cases v with
  | number n =>
    cases hNumber
    cases h with
    | number hn => exact Number.units_toFinite_lt hn
  | _ => cases hNumber

/-! ## Lengths -/

namespace Length

/-- What a style value denotes as a length. -/
inductive Written : Json → Length → Prop where
  | number {n : Number} : Written (.number n) (.points (.finite n.toFinite))
  | text {text : String} {l : Length} (hText : Denotes (Text.trim text.toList) l) :
      Written (.string text) l

/-- A style value is read as the length that it denotes. -/
theorem ofJson?_eq_some_iff {value : Json} {l : Length} :
    ofJson? value = some l ↔ Written value l := by
  constructor
  · intro h
    cases value with
    | number n =>
      cases h
      exact .number
    | string text => exact .text (ofText?_eq_some_iff.mp h)
    | _ => cases h
  · intro h
    cases h with
    | number => rfl
    | text hText => exact ofText?_eq_some_iff.mpr hText

/-- A style value is a length with a number that is not finite only as such a text. -/
theorem exists_written_not_isFinite_iff {value : Json} {depth : Nat}
    (hValue : value.toDocument.Fits Number.Proper depth) :
    (∃ l, Written value l ∧ ∃ v ∈ l.numbers, ¬ v.IsFinite) ↔
      ∃ text, value = .string text ∧ Boundless (Text.trim text.toList) := by
  constructor
  · rintro ⟨l, hWritten, v, hv, hNot⟩
    cases hWritten with
    | @number n =>
      obtain rfl := List.mem_singleton.mp hv
      exact absurd ⟨_, rfl, Json.units_toFinite?_lt hValue rfl⟩ hNot
    | text hText => exact ⟨_, rfl, boundless_iff.mpr ⟨l, hText, v, hv, hNot⟩⟩
  · rintro ⟨text, rfl, hBoundless⟩
    obtain ⟨l, hText, hNot⟩ := boundless_iff.mp hBoundless
    exact ⟨l, .text hText, hNot⟩

end Length

/-! ## Insets -/

namespace Insets

/-- The numbers of insets. -/
def numbers (i : Insets) : List Binary64 :=
  [.finite i.top, .finite i.right, .finite i.bottom, .finite i.left]

/-- All edges are finite: they are JSON numbers or zero. -/
theorem isFinite_of_ofJson? {value : Json} {depth : Nat}
    (hValue : value.toDocument.Fits Number.Proper depth) {i : Insets} (h : ofJson? value = some i) :
    ∀ v ∈ i.numbers, v.IsFinite := by
  -- the edges are read one by one, the list of numbers only collects them
  suffices hEdges : i.top.units < Units.limit ∧ i.right.units < Units.limit ∧
      i.bottom.units < Units.limit ∧ i.left.units < Units.limit by
    obtain ⟨hTop, hRight, hBottom, hLeft⟩ := hEdges
    simp only [numbers, List.forall_mem_cons]
    exact ⟨⟨_, rfl, hTop⟩, ⟨_, rfl, hRight⟩, ⟨_, rfl, hBottom⟩, ⟨_, rfl, hLeft⟩,
      List.forall_mem_nil _⟩
  cases value with
  | number n =>
    cases h
    have hNumber := Json.units_toFinite?_lt hValue rfl
    exact ⟨hNumber, hNumber, hNumber, hNumber⟩
  | object ms =>
    cases h
    have hNumber {name : String} {x : Finite}
        (h : (Entries.get? name ms).bind Json.toFinite? = some x) : x.units < Units.limit := by
      obtain ⟨v, hGet, hv⟩ := Option.bind_eq_some_iff.mp h
      obtain ⟨inner, hInner⟩ := hValue.of_get? hGet
      exact Json.units_toFinite?_lt hInner hv
    have hEdge (name axis : String) :
        ((((Entries.get? name ms).bind Json.toFinite?).or
          ((Entries.get? axis ms).bind Json.toFinite?)).getD .zero).units < Units.limit := by
      cases hName : (Entries.get? name ms).bind Json.toFinite? with
      | some x => exact hNumber hName
      | none =>
        cases hAxis : (Entries.get? axis ms).bind Json.toFinite? with
        | some x => exact hNumber hAxis
        | none => exact Units.limit_pos
    exact ⟨hEdge _ _, hEdge _ _, hEdge _ _, hEdge _ _⟩
  | _ => cases h

end Insets

/-! ## Styles -/

/-- Between two finite numbers lie finite ones. -/
theorem Finite.units_clamp_lt {x low high : Finite} (hx : x.units < Units.limit)
    (hLow : low.units < Units.limit) (hHigh : high.units < Units.limit) :
    (x.clamp low high).units < Units.limit := by
  unfold clamp
  split
  · exact hLow
  · split
    · exact hHigh
    · exact hx

/-- The attributes of a style that hold numbers. -/
inductive Numeric where
  | width
  | height
  | padding
  | margin
  | spacing
  | borderWidth
  | cornerRadius
  | opacity
  | fontSize
deriving DecidableEq

namespace Numeric

/-- The names under which a style table may have the attribute. -/
def names : Numeric → List String
  | width => ["width"]
  | height => ["height"]
  | padding => ["padding"]
  | margin => ["margin"]
  | spacing => ["spacing", "gap"]
  | borderWidth => ["borderWidth"]
  | cornerRadius => ["cornerRadius", "borderRadius"]
  | opacity => ["opacity"]
  | fontSize => ["fontSize"]

/-- Whether a style value means something for the attribute. -/
def Accepts : Numeric → Json → Prop
  | width, value => ∃ l, Length.Written value l
  | height, value => ∃ l, Length.Written value l
  | padding, value => (∃ n, value = .number n) ∨ ∃ ms, value = .object ms
  | margin, value => (∃ n, value = .number n) ∨ ∃ ms, value = .object ms
  | _, value => ∃ n, value = .number n

/-- The numbers that a style value gives the attribute. -/
def read? : Numeric → Json → Option (List Binary64)
  | width, value => (Length.ofJson? value).map Length.numbers
  | height, value => (Length.ofJson? value).map Length.numbers
  | padding, value => (Insets.ofJson? value).map Insets.numbers
  | margin, value => (Insets.ofJson? value).map Insets.numbers
  | opacity, value => value.toFinite?.map fun x => [.finite (x.clamp .zero .one)]
  | _, value => value.toFinite?.map fun x => [.finite x]

/-- Insets are read of a number or an object, and of nothing else. -/
theorem insetsRead?_eq_none_iff {value : Json} : (Insets.ofJson? value).map Insets.numbers = none ↔
    ¬ ((∃ n, value = .number n) ∨ ∃ ms, value = .object ms) := by
  cases value <;> simp [Insets.ofJson?]

/-- A number is read of a number only. -/
theorem numberRead?_eq_none_iff {value : Json} {f : Finite → List Binary64} :
    value.toFinite?.map f = none ↔ ¬ ∃ n, value = .number n := by
  cases value <;> simp [Json.toFinite?]

/-- A length is read of what is written as one. -/
theorem lengthRead?_eq_none_iff {value : Json} :
    (Length.ofJson? value).map Length.numbers = none ↔ ¬ ∃ l, Length.Written value l := by
  simp only [← Length.ofJson?_eq_some_iff, Option.map_eq_none_iff, ← Option.isSome_iff_exists,
    Bool.not_eq_true, Option.isSome_eq_false_iff, Option.isNone_iff_eq_none]

/-- What means nothing gives nothing. -/
theorem read?_eq_none_iff {attr : Numeric} {value : Json} :
    attr.read? value = none ↔ ¬ attr.Accepts value := by
  cases attr with
  | width => exact lengthRead?_eq_none_iff
  | height => exact lengthRead?_eq_none_iff
  | padding => exact insetsRead?_eq_none_iff
  | margin => exact insetsRead?_eq_none_iff
  | _ => exact numberRead?_eq_none_iff

section

variable {value : Json} {depth : Nat} (hValue : value.toDocument.Fits Number.Proper depth)
include hValue

/-- A length without a finite value is read of the texts that have no bounds. -/
theorem exists_lengthRead?_not_isFinite_iff :
    (∃ numbers, (Length.ofJson? value).map Length.numbers = some numbers ∧
        ∃ v ∈ numbers, ¬ v.IsFinite) ↔
      ∃ text, value = .string text ∧ Length.Boundless (Text.trim text.toList) := by
  rw [← Length.exists_written_not_isFinite_iff hValue]
  constructor
  · rintro ⟨_, hRead, hNot⟩
    obtain ⟨l, hLength, rfl⟩ := Option.map_eq_some_iff.mp hRead
    exact ⟨l, Length.ofJson?_eq_some_iff.mp hLength, hNot⟩
  · rintro ⟨l, hWritten, hNot⟩
    exact ⟨l.numbers, by rw [Length.ofJson?_eq_some_iff.mpr hWritten, Option.map_some], hNot⟩

/-- Insets are finite, however they are written. -/
theorem isFinite_of_insetsRead? {numbers : List Binary64}
    (h : (Insets.ofJson? value).map Insets.numbers = some numbers) : ∀ v ∈ numbers, v.IsFinite := by
  obtain ⟨i, hInsets, rfl⟩ := Option.map_eq_some_iff.mp h
  exact Insets.isFinite_of_ofJson? hValue hInsets

theorem isFinite_of_numberRead? {f : Finite → Finite}
    (hf : ∀ x : Finite, x.units < Units.limit → (f x).units < Units.limit)
    {numbers : List Binary64}
    (h : value.toFinite?.map (fun x => [Binary64.finite (f x)]) = some numbers) :
    ∀ v ∈ numbers, v.IsFinite := by
  obtain ⟨x, hNumber, rfl⟩ := Option.map_eq_some_iff.mp h
  rintro v hv
  obtain rfl := List.mem_singleton.mp hv
  exact ⟨_, rfl, hf x (Json.units_toFinite?_lt hValue hNumber)⟩

/-- Only lengths are read from anything else than JSON numbers. -/
theorem isFinite_of_read? {attr : Numeric} (hNot : ¬ (attr = width ∨ attr = height))
    {numbers : List Binary64} (h : attr.read? value = some numbers) :
    ∀ v ∈ numbers, v.IsFinite := by
  have hOne : Finite.one.units < Units.limit := by decide +kernel
  cases attr with
  | width => exact absurd (.inl rfl) hNot
  | height => exact absurd (.inr rfl) hNot
  | padding => exact isFinite_of_insetsRead? hValue h
  | margin => exact isFinite_of_insetsRead? hValue h
  | opacity =>
    exact isFinite_of_numberRead? hValue
      (fun _ hx => Finite.units_clamp_lt hx Units.limit_pos hOne) h
  | _ => exact isFinite_of_numberRead? hValue (fun _ hx => hx) h

/-- Only the width and the height may come without a finite value. -/
theorem exists_read?_not_isFinite_iff {attr : Numeric} :
    (∃ numbers, attr.read? value = some numbers ∧ ∃ v ∈ numbers, ¬ v.IsFinite) ↔
      (attr = width ∨ attr = height) ∧
        ∃ text, value = .string text ∧ Length.Boundless (Text.trim text.toList) := by
  constructor
  · rintro ⟨numbers, hRead, v, hv, hInfinite⟩
    by_cases hLength : attr = width ∨ attr = height
    · have hText := exists_lengthRead?_not_isFinite_iff hValue
      rcases hLength with rfl | rfl
      · exact ⟨.inl rfl, hText.mp ⟨numbers, hRead, v, hv, hInfinite⟩⟩
      · exact ⟨.inr rfl, hText.mp ⟨numbers, hRead, v, hv, hInfinite⟩⟩
    · exact absurd (isFinite_of_read? hValue hLength hRead v hv) hInfinite
  · rintro ⟨rfl | rfl, hText⟩
    · exact (exists_lengthRead?_not_isFinite_iff hValue).mpr hText
    · exact (exists_lengthRead?_not_isFinite_iff hValue).mpr hText

end

end Numeric

namespace TypedStyle

/-- The numbers of an attribute, if it is not left out. -/
def numbers? (s : TypedStyle) : Numeric → Option (List Binary64)
  | .width => s.width.map Length.numbers
  | .height => s.height.map Length.numbers
  | .padding => s.padding.map Insets.numbers
  | .margin => s.margin.map Insets.numbers
  | .spacing => s.spacing.map fun x => [.finite x]
  | .borderWidth => s.borderWidth.map fun x => [.finite x]
  | .cornerRadius => s.cornerRadius.map fun x => [.finite x]
  | .opacity => s.opacity.map fun x => [.finite x]
  | .fontSize => s.fontSize.map fun x => [.finite x]

section

variable (style : Table Json)

/-- The first readable attribute may be read and changed in one step. -/
theorem map_findSome?_get? {α β : Type} (read : Json → Option α) (f : α → β) (names : List String) :
    (names.findSome? fun name => (style.get? name).bind read).map f =
      names.findSome? fun name => (style.get? name).bind fun value => (read value).map f := by
  rw [List.map_findSome?]
  congr 1
  funext name
  exact Option.map_bind

theorem map_bind_get? {α β : Type} (read : Json → Option α) (f : α → β) (name : String) :
    ((style.get? name).bind read).map f =
      [name].findSome? fun name => (style.get? name).bind fun value => (read value).map f := by
  rw [← map_findSome?_get?, List.findSome?_singleton]

/-- The first name with a value that means something counts. -/
theorem numbers?_eq_findSome? (attr : Numeric) : (ofTable style).numbers? attr =
    attr.names.findSome? fun name => (style.get? name).bind attr.read? := by
  cases attr with
  | width => exact map_bind_get? style Length.ofJson? Length.numbers "width"
  | height => exact map_bind_get? style Length.ofJson? Length.numbers "height"
  | padding => exact map_bind_get? style Insets.ofJson? Insets.numbers "padding"
  | margin => exact map_bind_get? style Insets.ofJson? Insets.numbers "margin"
  | opacity =>
    rw [numbers?, ofTable, Option.map_map]
    exact map_findSome?_get? style Json.toFinite? _ ["opacity"]
  | spacing => exact map_findSome?_get? style Json.toFinite? _ ["spacing", "gap"]
  | borderWidth => exact map_findSome?_get? style Json.toFinite? _ ["borderWidth"]
  | cornerRadius => exact map_findSome?_get? style Json.toFinite? _ ["cornerRadius", "borderRadius"]
  | fontSize => exact map_findSome?_get? style Json.toFinite? _ ["fontSize"]

end

/-- Opacity is zero, one or between them. -/
theorem opacity_between {style : Table Json} {x : Finite}
    (h : (ofTable style).opacity = some x) : 0 ≤ x.scaled ∧ x.scaled ≤ Finite.one.scaled := by
  refine ⟨?_, opacity_le_one h⟩
  simp only [ofTable, Option.map_eq_some_iff] at h
  obtain ⟨y, -, rfl⟩ := h
  unfold Finite.clamp
  split
  · decide
  · split
    · decide +kernel
    · next hLow _ => exact Int.not_lt.mp hLow

/-- **The numbers of a resolved style.** Take any style table, whose JSON numbers are 64-bit
integers and doubles. In its typed view an attribute is left out exactly if under none of its names
is a value that means something for it. It has a number that is not finite exactly if it is the
width or the height and its value is a text whose number is one of the names of doubles without
digits or too large for a double. Opacity lies between zero and one. -/
theorem numbers?_ofTable {style : Table Json} {depth : Nat}
    (hStyle : (Json.ofTable style).toDocument.Fits Number.Proper depth) (attr : Numeric) :
    ((ofTable style).numbers? attr = none ↔
        ∀ name ∈ attr.names, ∀ value, style.get? name = some value → ¬ attr.Accepts value) ∧
      ((∃ numbers, (ofTable style).numbers? attr = some numbers ∧ ∃ v ∈ numbers, ¬ v.IsFinite) ↔
        (attr = .width ∨ attr = .height) ∧ ∃ name ∈ attr.names, ∃ text,
          style.get? name = some (.string text) ∧ Length.Boundless (Text.trim text.toList)) ∧
      ∀ x, (ofTable style).opacity = some x → 0 ≤ x.scaled ∧ x.scaled ≤ Finite.one.scaled := by
  rw [numbers?_eq_findSome?]
  refine ⟨?_, ?_, fun _ => opacity_between⟩
  · simp only [List.findSome?_eq_none_iff, Option.bind_eq_none_iff, Numeric.read?_eq_none_iff]
  · constructor
    · rintro ⟨numbers, hFirst, hNot⟩
      obtain ⟨name, hName, hRead⟩ := List.exists_of_findSome?_eq_some hFirst
      obtain ⟨value, hGet, hRead⟩ := Option.bind_eq_some_iff.mp hRead
      obtain ⟨_, hValue⟩ := hStyle.of_get? hGet
      obtain ⟨hLength, text, rfl, hBoundless⟩ :=
        (Numeric.exists_read?_not_isFinite_iff hValue).mp ⟨numbers, hRead, hNot⟩
      exact ⟨hLength, name, hName, text, hGet, hBoundless⟩
    · rintro ⟨hLength, name, hName, text, hGet, hBoundless⟩
      obtain ⟨_, hValue⟩ := hStyle.of_get? hGet
      obtain ⟨numbers, hRead, hNot⟩ :=
        (Numeric.exists_read?_not_isFinite_iff hValue).mpr ⟨hLength, text, rfl, hBoundless⟩
      -- a length stands under one name only
      have hOnly : attr.names = [name] := by
        rcases hLength with rfl | rfl
        · rw [List.mem_singleton.mp hName]
          rfl
        · rw [List.mem_singleton.mp hName]
          rfl
      refine ⟨numbers, ?_, hNot⟩
      rw [hOnly, List.findSome?_singleton, hGet]
      exact hRead

/-- A share of the name `nan`, beside a number. -/
theorem numbers?_ofTable_nan :
    (Json.ofTable (Table.ofList [("opacity", .int 2), ("width", .string " NaN%")])).toDocument.Fits
        Number.Proper 1 ∧
      ∃ numbers, (ofTable (Table.ofList [("opacity", .int 2), ("width", .string " NaN%")])).numbers?
        .width = some numbers ∧ ∃ v ∈ numbers, ¬ v.IsFinite := by
  have hFits : (Json.ofTable (Table.ofList
      [("opacity", .int 2), ("width", .string " NaN%")])).toDocument.Fits Number.Proper 1 := by
    refine .object fun m hm => ?_
    rcases List.mem_cons.mp hm with rfl | hm
    · exact .number ⟨by decide, by decide⟩
    · rw [List.mem_singleton.mp hm]
      exact .string
  have hTrim : Text.trim " NaN%".toList = "NaN".toList ++ ['%'] := by decide
  have hName : Decimal.Named (String.ofList ((Text.trim "NaN".toList).map Char.toLower)) false
      .nan := by
    rw [show String.ofList ((Text.trim "NaN".toList).map Char.toLower) = "nan" by decide]
    exact .nan
  have hShare : Length.Boundless (Text.trim " NaN%".toList) := by
    rw [hTrim]
    exact .percent (.name .none hName)
  exact ⟨hFits, ((numbers?_ofTable hFits .width).2.1).mpr
    ⟨.inl rfl, "width", by decide, " NaN%", rfl, hShare⟩⟩

/-- The width `inf` is a number of points that is not finite. -/
theorem width_ofTable_inf :
    (ofTable (Table.ofList [("width", .string "inf")])).width = some (.points (.infinite false)) ∧
      ¬ (Binary64.infinite false).IsFinite := by
  refine ⟨by decide, ?_⟩
  rintro ⟨x, hEq, -⟩
  cases hEq

end TypedStyle

end Onboarding
