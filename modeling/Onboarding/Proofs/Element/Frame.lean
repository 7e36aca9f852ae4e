import Onboarding.Proofs.Element.Redaction
import Onboarding.Proofs.Element.Validity

/-!
# Onboarding — what redaction keeps and what it hides

The assistant answers a redacted forest with changes that name elements by their ids,
and these are then made in the forest itself. So redaction must keep the forest
addressable: it changes no element in anything but its position and the properties
that are assets (`Attributes.Redacted`), and the check of a forest says the same of
both. In return nothing of what it takes out can be seen in what it leaves: forests
that differ in nothing else are redacted to one (`Attributes.SameButPayload`).

Forests are compared element by element (`AlikeAll`), which says that they have one
shape.

## Results

* `alikeAll_mapAll`, `mapAll_eq_of_alike` — a change of attributes, element by element.
* `validate_eq_of_alike` — the check looks at ids, kinds and the shape only.
* `redact_frame` — what redaction keeps, and what it hides.
-/

namespace Onboarding

/-! ## Attributes -/

namespace Attributes

/-- All that an element is but for its properties and its position. -/
def frame (a : Attributes) : Attributes := { a with props := ∅, position := none }

/-- The second are the first with a placeholder for the properties that are assets, whatever the
position. -/
structure Redacted (a b : Attributes) : Prop where
  frame : b.frame = a.frame
  props : ∀ key, b.props.get? key = a.props.get? key ∨
    ∃ s, a.props.get? key = some (.string s) ∧ IsAsset s ∧
      b.props.get? key = some (.string Element.assetPlaceholder)

/-- The two differ at most in the position and in what follows the start of an asset. -/
structure SameButPayload (a b : Attributes) : Prop where
  frame : a.frame = b.frame
  props : ∀ key, a.props.get? key = b.props.get? key ∨
    ∃ s t, a.props.get? key = some (.string s) ∧ b.props.get? key = some (.string t) ∧
      IsAsset s ∧ IsAsset t

/-- What is equal but for properties and position is so with the same ones of these. -/
theorem eq_of_frame_eq {a b : Attributes} (hFrame : a.frame = b.frame) (hProps : a.props = b.props)
    (hPosition : a.position = b.position) : a = b := by
  cases a
  cases b
  simp only [frame, mk.injEq] at hFrame
  simp_all

end Attributes

namespace Element

/-- A text that is an asset is replaced. -/
theorem redactValue_of_isAsset {s : String} (h : IsAsset s) :
    redactValue (.string s) = .string assetPlaceholder := by
  rw [redactValue, if_pos (isInlineAsset_iff.mpr h)]

/-- Every other value stays. -/
theorem redactValue_cases (v : Json) :
    redactValue v = v ∨
      ∃ s, v = .string s ∧ IsAsset s ∧ redactValue v = .string assetPlaceholder := by
  cases v with
  | string s =>
    by_cases hAsset : IsAsset s
    · exact .inr ⟨s, rfl, hAsset, redactValue_of_isAsset hAsset⟩
    · rw [← isInlineAsset_iff] at hAsset
      rw [redactValue, if_neg hAsset]
      exact .inl rfl
  | null | bool | number | array | object => exact .inl rfl

/-- Properties are redacted one by one, each under its key. -/
theorem get?_redactAttributes (a : Attributes) (key : String) :
    (redactAttributes a).props.get? key = (a.props.get? key).map redactValue :=
  a.props.get?_map redactValue key

/-- Redacted attributes differ in assets only. -/
theorem redacted_redactAttributes (a : Attributes) : a.Redacted (redactAttributes a) where
  frame := rfl
  props key := by
    rw [get?_redactAttributes]
    cases hValue : a.props.get? key with
    | none => exact .inl rfl
    | some v =>
      rcases redactValue_cases v with hSame | ⟨s, rfl, hAsset, hPlaceholder⟩
      · exact .inl (congrArg some hSame)
      · exact .inr ⟨s, rfl, hAsset, congrArg some hPlaceholder⟩

/-- Attributes are redacted alike if they have one frame and their properties are redacted alike. -/
theorem redactAttributes_eq {a b : Attributes} (hFrame : a.frame = b.frame)
    (hProps : ∀ key, (a.props.get? key).map redactValue = (b.props.get? key).map redactValue) :
    redactAttributes a = redactAttributes b := by
  refine Attributes.eq_of_frame_eq hFrame (Table.ext_get? fun key => ?_) rfl
  rw [get?_redactAttributes, get?_redactAttributes, hProps key]

/-- What is redacted already is redacted to the same. -/
theorem redactAttributes_eq_of_redacted {a b : Attributes} (h : a.Redacted b) :
    redactAttributes b = redactAttributes a := by
  refine redactAttributes_eq h.frame fun key => ?_
  rcases h.props key with hSame | ⟨s, hs, hAsset, hPlaceholder⟩
  · rw [hSame]
  · rw [hs, hPlaceholder, Option.map_some, Option.map_some, redactValue_of_isAsset hAsset]
    rfl

/-- Attributes that differ in the payload of assets only are redacted to the same. -/
theorem redactAttributes_eq_of_sameButPayload {a b : Attributes} (h : a.SameButPayload b) :
    redactAttributes a = redactAttributes b := by
  refine redactAttributes_eq h.frame fun key => ?_
  rcases h.props key with hSame | ⟨s, t, hs, ht, hAsset, hAsset'⟩
  · rw [hSame]
  · rw [hs, ht, Option.map_some, Option.map_some, redactValue_of_isAsset hAsset,
      redactValue_of_isAsset hAsset']

/-! ## Forests of one shape -/

mutual

/-- Two elements and everything inside have one shape, and their attributes are related. -/
def Alike (R : Attributes → Attributes → Prop) : Element → Element → Prop
  | node a cs, node b ds => R a b ∧ AlikeAll R cs ds

/-- `Alike` of every element with the one at its place. -/
def AlikeAll (R : Attributes → Attributes → Prop) : List Element → List Element → Prop
  | [], [] => True
  | e :: rest, f :: others => Alike R e f ∧ AlikeAll R rest others
  | _, _ => False

end

section Shapes

variable {R : Attributes → Attributes → Prop}

mutual

/-- What is changed attribute by attribute keeps its shape. -/
theorem alike_map {f : Attributes → Attributes} (h : ∀ a, R a (f a)) :
    ∀ e : Element, Alike R e (map f e)
  | node a cs => by
    rw [map, Alike]
    exact ⟨h a, alikeAll_mapAll h cs⟩

/-- A forest is like the one with changed attributes if the change is related. -/
theorem alikeAll_mapAll {f : Attributes → Attributes} (h : ∀ a, R a (f a)) :
    ∀ es : List Element, AlikeAll R es (mapAll f es)
  | [] => by rw [mapAll, AlikeAll]; trivial
  | e :: rest => by
    rw [mapAll, AlikeAll]
    exact ⟨alike_map h e, alikeAll_mapAll h rest⟩

end

mutual

/-- Elements of one shape are changed to the same if their attributes are. -/
theorem map_eq_of_alike {f : Attributes → Attributes} (h : ∀ a b, R a b → f a = f b) :
    ∀ {e e' : Element}, Alike R e e' → map f e = map f e'
  | node a cs, node b ds, hAlike => by
    rw [Alike] at hAlike
    rw [map, map, h a b hAlike.1, mapAll_eq_of_alike h hAlike.2]

/-- A change of attributes that is the same for related ones is the same for forests. -/
theorem mapAll_eq_of_alike {f : Attributes → Attributes} (h : ∀ a b, R a b → f a = f b) :
    ∀ {es es' : List Element}, AlikeAll R es es' → mapAll f es = mapAll f es'
  | [], [], _ => rfl
  | e :: rest, e' :: rest', hAlike => by
    rw [AlikeAll] at hAlike
    rw [mapAll, mapAll, map_eq_of_alike h hAlike.1, mapAll_eq_of_alike h hAlike.2]

end

/-! ## The check -/

/-- What the check looks at. -/
def outline (e : Element) : String × ElementKind × Bool := (e.id, e.kind, e.children.isEmpty)

/-- Of two forests of one shape both are empty or none is. -/
theorem AlikeAll.isEmpty_eq : ∀ {es es' : List Element}, AlikeAll R es es' →
    es.isEmpty = es'.isEmpty
  | [], [], _ => rfl
  | _ :: _, _ :: _, _ => rfl

mutual

/-- Elements of one shape have one outline, where related attributes have. -/
theorem map_outline_document (h : ∀ a b, R a b → a.id = b.id ∧ a.kind = b.kind) :
    ∀ {e e' : Element}, Alike R e e' → (document e).map outline = (document e').map outline
  | node a cs, node b ds, hAlike => by
    rw [Alike] at hAlike
    obtain ⟨hId, hKind⟩ := h a b hAlike.1
    have hOutline : outline (node a cs) = outline (node b ds) := by
      simp only [outline, Element.id, Element.kind, attributes, children, hId, hKind,
        hAlike.2.isEmpty_eq]
    rw [document, document, List.map_cons, List.map_cons, hOutline,
      map_outline_documents h hAlike.2]

theorem map_outline_documents (h : ∀ a b, R a b → a.id = b.id ∧ a.kind = b.kind) :
    ∀ {es es' : List Element}, AlikeAll R es es' →
      (documents es).map outline = (documents es').map outline
  | [], [], _ => rfl
  | e :: rest, e' :: rest', hAlike => by
    rw [AlikeAll] at hAlike
    rw [documents, documents, List.map_append, List.map_append, map_outline_document h hAlike.1,
      map_outline_documents h hAlike.2]

end

end Shapes

/-- What is wrong with an element depends on its outline and on the ids before it. -/
theorem faultAt_congr {before before' : List Element} {e e' : Element}
    (hBefore : before.map Element.id = before'.map Element.id) (h : outline e = outline e') :
    faultAt before e = faultAt before' e' := by
  simp only [outline, Prod.mk.injEq] at h
  obtain ⟨hId, hKind, hChildren⟩ := h
  have hNil : e.children ≠ [] ↔ e'.children ≠ [] := by
    rw [← List.isEmpty_eq_false_iff, hChildren, List.isEmpty_eq_false_iff]
  simp only [faultAt, hBefore, hId, hKind, hNil]

/-- Where a fault is first depends on the outlines of the elements. -/
theorem firstFault_congr {before before' es es' : List Element}
    (hBefore : before.map Element.id = before'.map Element.id)
    (h : es.map outline = es'.map outline) : firstFault before es = firstFault before' es' := by
  induction es generalizing before before' es' with
  | nil =>
    cases es' with
    | nil => rfl
    | cons => cases h
  | cons e rest ih =>
    cases es' with
    | nil => cases h
    | cons e' rest' =>
      obtain ⟨hOutline, hRest⟩ := List.cons.inj h
      have hId : e.id = e'.id := congrArg Prod.fst hOutline
      have hNext : (before ++ [e]).map Element.id = (before' ++ [e']).map Element.id := by
        rw [List.map_append, List.map_append, hBefore, List.map_singleton, List.map_singleton, hId]
      rw [firstFault, firstFault, faultAt_congr hBefore hOutline, ih hNext hRest]

/-- The check says the same of forests of one shape with the same ids and kinds. -/
theorem validate_eq_of_alike {R : Attributes → Attributes → Prop} {roots others : List Element}
    (h : AlikeAll R roots others) (hOutline : ∀ a b, R a b → a.id = b.id ∧ a.kind = b.kind) :
    validate roots = validate others := by
  rw [validate_eq, validate_eq, firstFault_congr rfl (map_outline_documents hOutline h)]

/-- A forest is redacted attribute by attribute. -/
theorem redact_eq_mapAll (roots : List Element) : redact roots = mapAll redactAttributes roots :=
  (mapAll_eq redactAttributes roots).symm

/-- Forests of one shape are redacted to one if their attributes are. -/
theorem redact_eq_of_alike {R : Attributes → Attributes → Prop} {roots others : List Element}
    (h : AlikeAll R roots others)
    (hRedacted : ∀ a b, R a b → redactAttributes a = redactAttributes b) :
    redact others = redact roots := by
  rw [redact_eq_mapAll, redact_eq_mapAll]
  exact (mapAll_eq_of_alike hRedacted h).symm

/-- **Redaction keeps a forest addressable and hides what it takes out.** The redacted forest has
the same shape, and at every place the same id, kind, style, actions, rules of visibility and
animation; its properties are the same but for a placeholder where the value is an asset. The check
says the same of both forests, with the same error if there is one, and redacting again changes
nothing. Another forest that differs only in positions and in what follows the start of assets is
redacted to the same one. -/
theorem redact_frame (roots : List Element) :
    AlikeAll Attributes.Redacted roots (redact roots) ∧
    validate (redact roots) = validate roots ∧
    redact (redact roots) = redact roots ∧
    ∀ others, AlikeAll Attributes.SameButPayload roots others → redact others = redact roots := by
  have hRedacted : AlikeAll Attributes.Redacted roots (redact roots) := by
    rw [redact_eq_mapAll]
    exact alikeAll_mapAll redacted_redactAttributes roots
  refine ⟨hRedacted, ?_, ?_, fun others hOthers => ?_⟩
  · refine (validate_eq_of_alike hRedacted fun a b h => ?_).symm
    exact ⟨(congrArg Attributes.id h.frame).symm, (congrArg Attributes.kind h.frame).symm⟩
  · exact redact_eq_of_alike hRedacted fun a b h => (redactAttributes_eq_of_redacted h).symm
  · exact redact_eq_of_alike hOthers fun a b h => redactAttributes_eq_of_sameButPayload h

/-- Two screens whose pictures and positions differ leave one trace, which keeps their ids. -/
theorem redact_frame_pictures :
    let row (picture : Json) (position : Option Json) := node { id := "row", kind := .hstack }
      [node { id := "hero", kind := .image, props := Table.ofList [("url", picture)], position } []]
    AlikeAll Attributes.SameButPayload [row (.string "data:image/png;base64,AAAA") none]
        [row (.string "data:text/plain,secret") (some (.int 7))] ∧
      redact [row (.string "data:text/plain,secret") (some (.int 7))] =
        redact [row (.string "data:image/png;base64,AAAA") none] := by
  intro row
  have hRow : Attributes.SameButPayload { id := "row", kind := .hstack }
      { id := "row", kind := .hstack } := ⟨rfl, fun _ => .inl rfl⟩
  have hAlike : AlikeAll Attributes.SameButPayload [row (.string "data:image/png;base64,AAAA") none]
      [row (.string "data:text/plain,secret") (some (.int 7))] := by
    simp only [row, AlikeAll, Alike]
    refine ⟨⟨hRow, ⟨⟨rfl, fun key => ?_⟩, trivial⟩, trivial⟩, trivial⟩
    by_cases hKey : key = "url"
    · subst hKey
      exact .inr ⟨_, _, rfl, rfl, by decide, by decide⟩
    · refine .inl ?_
      simp [Table.ofList, Table.get?, Entries.ofList, Entries.insertAll, Entries.insert,
        Entries.get?, hKey]
  exact ⟨hAlike, (redact_frame _).2.2.2 _ hAlike⟩

end Element

end Onboarding
