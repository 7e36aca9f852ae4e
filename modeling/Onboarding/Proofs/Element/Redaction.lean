import Onboarding.Element.Redaction

/-!
# Onboarding — what redaction leaves

Redaction takes the position of every element of a forest and puts a placeholder for
the properties that are inline assets. It looks at a property's own value only, so an
asset inside a list or an object stays. The assets that are left are exactly these
(`assets_redactAttributes`), and a forest without them is redacted completely.

## Results

* `documents_redact` — redaction goes over every element.
* `assets_redactAttributes` — which assets an element keeps.
* `redact_complete_iff` — what is left of positions and assets in a forest.
* `asset_inside_redact` — an asset that is left.
-/

namespace Onboarding

/-! ## Texts -/

namespace Json

mutual

/-- The texts that a value holds, at any depth. The names of members are not among them. -/
def texts : Json → List String
  | string s => [s]
  | array xs => textsOfItems xs
  | object ms => textsOfMembers ms
  | _ => []

/-- The texts that items hold. -/
def textsOfItems : List Json → List String
  | [] => []
  | x :: xs => texts x ++ textsOfItems xs

/-- The texts that the values of members hold. -/
def textsOfMembers : List (String × Json) → List String
  | [] => []
  | (_, x) :: ms => texts x ++ textsOfMembers ms

end

/-- The texts inside a list or an object, at any depth. -/
def innerTexts : Json → List String
  | string _ => []
  | v => v.texts

end Json

/-- The text is an inline asset. -/
def IsAsset (s : String) : Prop := "data:".toList <+: s.toList

instance : DecidablePred IsAsset := fun _ => inferInstanceAs (Decidable (_ <+: _))

namespace Attributes

/-- The texts among the properties, at any depth. -/
def texts (a : Attributes) : List String := a.props.values.flatMap Json.texts

/-- The assets among the properties, at any depth. -/
def assets (a : Attributes) : List String := a.texts.filter IsAsset

/-- The assets inside the lists and objects among the properties, at any depth. -/
def innerAssets (a : Attributes) : List String :=
  (a.props.values.flatMap Json.innerTexts).filter IsAsset

end Attributes

/-! ## Redacted values -/

namespace Element

/-- A text is taken for an asset exactly if it is one. -/
theorem isInlineAsset_iff {s : String} : isInlineAsset s = true ↔ IsAsset s := by
  rw [isInlineAsset, Option.isSome_iff_exists]
  constructor
  · rintro ⟨rest, hCut⟩
    exact ⟨rest, (Text.cutHead?_eq_some.mp hCut).symm⟩
  · rintro ⟨rest, hText⟩
    exact ⟨rest, Text.cutHead?_eq_some.mpr hText.symm⟩

theorem not_isAsset_placeholder : ¬ IsAsset assetPlaceholder := by decide

/-- A property whose value is a text is no asset afterwards. -/
theorem not_isAsset_of_redactValue {v : Json} {s : String} (h : redactValue v = .string s) :
    ¬ IsAsset s := by
  cases v with
  | string t =>
    by_cases hAsset : isInlineAsset t = true
    · rw [redactValue, if_pos hAsset] at h
      cases h
      exact not_isAsset_placeholder
    · rw [redactValue, if_neg hAsset] at h
      cases h
      exact fun hPrefix => hAsset (isInlineAsset_iff.mpr hPrefix)
  | null | bool | number | array | object => cases h

/-- The assets that a value holds afterwards were inside a list or an object. -/
theorem assets_redactValue (v : Json) :
    (redactValue v).texts.filter IsAsset = v.innerTexts.filter IsAsset := by
  cases v with
  | string s =>
    obtain ⟨t, ht⟩ : ∃ t, redactValue (.string s) = .string t := by
      rw [redactValue]
      split <;> exact ⟨_, rfl⟩
    rw [ht]
    simp [Json.texts, Json.innerTexts, not_isAsset_of_redactValue ht]
  | null | bool | number | array | object => rfl

/-- Properties are redacted one by one. -/
theorem values_redactAttributes (a : Attributes) :
    (redactAttributes a).props.values = a.props.values.map redactValue :=
  a.props.values_map redactValue

/-- An element keeps the assets that are inside lists and objects. -/
theorem assets_redactAttributes (a : Attributes) : (redactAttributes a).assets = a.innerAssets := by
  rw [Attributes.assets, Attributes.texts, values_redactAttributes, Attributes.innerAssets,
    List.flatMap_map, List.filter_flatMap, List.filter_flatMap]
  exact congrArg a.props.values.flatMap (funext assets_redactValue)

/-! ## Redacted forests -/

mutual

/-- What is changed attribute by attribute has the same elements, each changed. -/
theorem document_map (f : Attributes → Attributes) :
    ∀ e : Element, document (map f e) = (document e).map (map f)
  | node a cs => by
    rw [map, document, document, List.map_cons, documents_mapAll f cs, map]

theorem documents_mapAll (f : Attributes → Attributes) :
    ∀ es : List Element, documents (mapAll f es) = (documents es).map (map f)
  | [] => rfl
  | e :: rest => by
    rw [mapAll, documents, documents, List.map_append, document_map f e, documents_mapAll f rest]

end

/-- Every element of the forest is redacted where it stands. -/
theorem documents_redact (roots : List Element) :
    documents (redact roots) = (documents roots).map (map redactAttributes) := by
  rw [redact, ← mapAll_eq, documents_mapAll]

theorem attributes_map (f : Attributes → Attributes) (e : Element) :
    (map f e).attributes = f e.attributes := by
  rw [map_eq, attributes]

/-- No element of a redacted forest has a position or a property that is an asset, and the assets
that are left in it are those inside lists and objects. So none is left exactly if the lists and
objects among the properties of the forest hold none. -/
theorem redact_complete_iff (roots : List Element) :
    (∀ e ∈ documents (redact roots), e.attributes.position = none ∧
      ∀ s, .string s ∈ e.attributes.props.values → ¬ IsAsset s) ∧
    (documents (redact roots)).map (fun e => e.attributes.assets) =
      (documents roots).map (fun e => e.attributes.innerAssets) ∧
    ((∀ e ∈ documents (redact roots), ∀ s ∈ e.attributes.texts, ¬ IsAsset s) ↔
      ∀ e ∈ documents roots, e.attributes.innerAssets = []) := by
  refine ⟨fun e he => ?_, ?_, ?_⟩
  · rw [documents_redact] at he
    obtain ⟨original, -, rfl⟩ := List.mem_map.mp he
    rw [attributes_map]
    refine ⟨rfl, fun s hs => ?_⟩
    rw [values_redactAttributes] at hs
    obtain ⟨v, -, hv⟩ := List.mem_map.mp hs
    exact not_isAsset_of_redactValue hv
  · rw [documents_redact, List.map_map]
    refine List.map_congr_left fun e _ => ?_
    rw [Function.comp_apply, attributes_map, assets_redactAttributes]
  · rw [documents_redact, List.forall_mem_map]
    refine forall_congr' fun e => forall_congr' fun _ => ?_
    -- no text of the copy is a payload exactly if the inner ones were none
    rw [attributes_map, ← assets_redactAttributes, Attributes.assets, List.filter_eq_nil_iff]
    simp

/-- An asset in a list is left as it is. -/
theorem asset_inside_redact :
    let gallery := (plain "gallery" .image).setProp "urls"
      (.array [.string "data:image/png;base64,AAAA"])
    redact [gallery] = [gallery] ∧ gallery ∈ documents (redact [gallery]) ∧
      "data:image/png;base64,AAAA" ∈ gallery.attributes.texts ∧
      IsAsset "data:image/png;base64,AAAA" := by
  intro gallery
  have hSame : redact [gallery] = [gallery] := rfl
  refine ⟨hSame, ?_, ?_, by decide⟩
  · rw [hSame]
    exact List.mem_cons_self
  · exact List.mem_cons_self

end Element

end Onboarding
