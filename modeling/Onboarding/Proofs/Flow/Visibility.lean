import Onboarding.Flow.Render
import Onboarding.Proofs.Element.Occurrence

/-!
# Onboarding — what of a screen is rendered

An occurrence is visible when it is shown and everything around it is: what is
hidden hides what is inside. A rendering can be traced back: a `Traced` element
is a rendered element together with the occurrence that it shows.

## Results

* `shows_draw` — what is drawn for an element.
* `exists_traced_renderAll` — the rendered elements show the visible occurrences,
  each once, in document order and under its old parent.
-/

namespace Onboarding.Rendered

open Element (Occurrence occurrences occurrencesIn allOccurrences)

/-! ## Visible occurrences -/

/-- Whether the occurrence and everything around it is shown. -/
def isVisible (v : View) (o : Occurrence) : Bool := o.path.all fun e => e.attributes.isShown v

/-- The visible occurrences of a forest, in document order. -/
def visible (v : View) (roots : List Element) : List Occurrence :=
  (allOccurrences roots).filter (isVisible v)

/-! ## Drawn elements -/

/-- Whether a text that waits for an input element takes the place of a property. -/
def Overwritten (v : View) (a : Attributes) (key : String) : Prop :=
  key = "value" ∧ a.kind = .input ∧ v.inputs.get? a.inputName ≠ none

/-- What is drawn shows an element with these attributes. -/
structure Shows (v : View) (a : Attributes) (d : Drawn) : Prop where
  id : d.id = a.id
  kind : d.kind = a.kind
  style : d.style = .ofTable a.style
  hasAction : d.hasAction = true ↔ a.actionList ≠ []
  selected : d.selected = true ↔ v.selection.isOn a.id = true
  /-- An input element has the text that waits for it as its value. -/
  waiting : ∀ text, a.kind = .input → v.inputs.get? a.inputName = some text →
    d.props.get? "value" = some (.string text)
  keys : ∀ key, ¬Overwritten v a key → d.props.contains key = a.props.contains key
  template : ∀ key text, ¬Overwritten v a key → a.props.get? key = some (.string text) →
    d.props.get? key = some (.string (Template.resolve text v.vars))
  /-- What is no text, or not there, is as it was. -/
  other : ∀ key, ¬Overwritten v a key → (∀ text, a.props.get? key ≠ some (.string text)) →
    d.props.get? key = a.props.get? key

/-- Every property that no waiting text takes the place of has its template resolved. -/
theorem get?_draw_props {v : View} {a : Attributes} {key : String} (h : ¬Overwritten v a key) :
    (a.draw v).props.get? key = (a.props.get? key).map (fillProp v.vars) := by
  unfold Attributes.draw
  dsimp only
  split
  · next hKind =>
    split
    · next text hText =>
      -- the waiting text stands under a key of its own
      have hKey : key ≠ "value" := by
        rintro rfl
        exact h ⟨rfl, hKind, by simp [hText]⟩
      rw [Table.get?_insert, if_neg hKey, fillProps, Table.get?_map]
    · rw [fillProps, Table.get?_map]
  · rw [fillProps, Table.get?_map]

/-- What is drawn for an element shows it. -/
theorem shows_draw (v : View) (a : Attributes) : Shows v a (a.draw v) where
  id := rfl
  kind := rfl
  style := rfl
  hasAction := by
    show (!a.actionList.isEmpty) = true ↔ _
    rw [Bool.not_eq_true', List.isEmpty_eq_false_iff]
  selected := Iff.rfl
  waiting text hKind hText := by
    simp only [Attributes.draw, hKind, if_true, hText]
    rw [Table.get?_insert, if_pos rfl]
  keys key h := by
    rw [Table.contains, get?_draw_props h, Option.isSome_map, Table.contains]
  template key text h hText := by
    rw [get?_draw_props h, hText]
    rfl
  other key h hOther := by
    rw [get?_draw_props h]
    -- only strings are filled in, and `hOther` excludes them
    cases hValue : a.props.get? key with
    | none => rfl
    | some value =>
      cases value with
      | string text => exact absurd hValue (hOther text)
      | _ => rfl

/-! ## Traced elements -/

/-- A rendered element with the occurrence that it shows. -/
inductive Traced where
  | node (source : Occurrence) (drawn : Drawn) (children : List Traced)

namespace Traced

mutual

/-- The rendered element without its occurrence. -/
def forget : Traced → Rendered
  | node _ d ts => .node d (forgetAll ts)

/-- `forget` of every element. -/
def forgetAll : List Traced → List Rendered
  | [] => []
  | t :: ts => forget t :: forgetAll ts

end

mutual

/-- The occurrences that the element and those inside show, in document order. -/
def sources : Traced → List Occurrence
  | node o _ ts => o :: sourcesOf ts

/-- The occurrences that the elements show. -/
def sourcesOf : List Traced → List Occurrence
  | [] => []
  | t :: ts => sources t ++ sourcesOf ts

end

theorem forgetAll_append (ts us : List Traced) :
    forgetAll (ts ++ us) = forgetAll ts ++ forgetAll us := by
  induction ts with
  | nil => rfl
  | cons t ts ih => rw [List.cons_append, forgetAll, ih, forgetAll, List.cons_append]

theorem sourcesOf_append (ts us : List Traced) :
    sourcesOf (ts ++ us) = sourcesOf ts ++ sourcesOf us := by
  induction ts with
  | nil => rfl
  | cons t ts ih => rw [List.cons_append, sourcesOf, ih, sourcesOf, List.append_assoc]

end Traced

/-- A rendered element shows its occurrence, which stands directly below the one that its parent
shows, or is a root as it is. -/
inductive Placed (v : View) : Option Occurrence → Traced → Prop where
  | node {parent : Option Occurrence} {o : Occurrence} {d : Drawn} {ts : List Traced} :
    o.IsUnder parent → Shows v o.element.attributes d → (∀ t ∈ ts, Placed v (some o) t) →
    Placed v parent (.node o d ts)

/-- The traced elements trace what is rendered below an occurrence, or of the roots, and show these
occurrences. -/
structure Traces (v : View) (parent : Option Occurrence) (shown : List Occurrence)
    (rs : List Rendered) (ts : List Traced) : Prop where
  forget : Traced.forgetAll ts = rs
  sources : Traced.sourcesOf ts = shown
  placed : ∀ t ∈ ts, Placed v parent t

section Rendering

variable {v : View}

theorem Traces.nil (parent : Option Occurrence) : Traces v parent [] [] [] where
  forget := rfl
  sources := rfl
  placed _ h := absurd h List.not_mem_nil

theorem Traces.append {parent : Option Occurrence} {shown more : List Occurrence}
    {rs qs : List Rendered} {ts us : List Traced} (hFirst : Traces v parent shown rs ts)
    (hSecond : Traces v parent more qs us) :
    Traces v parent (shown ++ more) (rs ++ qs) (ts ++ us) where
  forget := by rw [Traced.forgetAll_append, hFirst.forget, hSecond.forget]
  sources := by rw [Traced.sourcesOf_append, hFirst.sources, hSecond.sources]
  placed := List.forall_mem_append.mpr ⟨hFirst.placed, hSecond.placed⟩

/-- Of the first element nothing or one is rendered, and the others follow. -/
theorem renderAll_cons (e : Element) (rest : List Element) :
    renderAll v (e :: rest) = (render? v e).toList ++ renderAll v rest := by
  rw [renderAll]
  cases render? v e <;> rfl

/-- Nothing inside a hidden element is visible, and neither is the element. -/
theorem filter_hidden {e : Element} (hHidden : e.attributes.isShown v = false) (position : List Nat)
    (ancestors : List Element) :
    (occurrences position ancestors e).filter (isVisible v) = [] := by
  rw [List.filter_eq_nil_iff]
  intro o ho hVisible
  -- the hidden element is the occurrence itself or around it
  obtain ⟨hPath, -⟩ := Element.path_of_mem_occurrences e ho
  have hMem : e ∈ o.path := hPath.subset (List.mem_append_right _ List.mem_cons_self)
  have hShown := List.all_eq_true.mp hVisible e hMem
  rw [hHidden] at hShown
  exact absurd hShown Bool.false_ne_true

/-- A shown element is traced by what is traced below it. -/
theorem Traces.node {parent : Option Occurrence} {o : Occurrence} {a : Attributes}
    {cs : List Element} {rs : List Rendered} {us : List Traced}
    (hElement : o.element = .node a cs) (hUnder : o.IsUnder parent)
    (hVisible : isVisible v o = true)
    (h : Traces v (some o) ((occurrencesIn o.position o.path 0 cs).filter (isVisible v)) rs us) :
    Traces v parent ((occurrences o.position o.ancestors o.element).filter (isVisible v))
      [.node (a.draw v) rs] [.node o (a.draw v) us] := by
  obtain ⟨hForget, hSources, hPlaced⟩ := h
  -- the occurrence stands in front of those below it
  have hSelf : o = ⟨o.position, o.ancestors, .node a cs⟩ := by rw [← hElement]
  refine ⟨?_, ?_, ?_⟩
  · rw [Traced.forgetAll, Traced.forget, hForget, Traced.forgetAll]
  · rw [hElement, occurrences, ← hSelf, ← hElement, List.filter_cons_of_pos hVisible,
      Traced.sourcesOf, Traced.sources, hSources, Traced.sourcesOf, List.append_nil]
    rfl
  · intro t ht
    rw [List.mem_singleton] at ht
    subst ht
    have hAttributes : o.element.attributes = a := by rw [hElement]; rfl
    exact .node hUnder (hAttributes ▸ shows_draw v a) hPlaced

mutual

/-- Where everything around is shown, an element is traced by what is rendered of it. -/
theorem exists_traced_render? : ∀ (e : Element) {parent : Option Occurrence} {i : Nat},
    (∀ x ∈ (parent.map Occurrence.path).getD [], x.attributes.isShown v = true) →
    ∃ ts, Traces v parent
      ((occurrences ((parent.map Occurrence.position).getD [] ++ [i])
        ((parent.map Occurrence.path).getD []) e).filter (isVisible v))
      (render? v e).toList ts
  | .node a cs, parent, i, hAround => by
    rw [render?]
    cases hShown : a.isShown v with
    | false =>
      -- the element is hidden with everything inside
      rw [filter_hidden (e := .node a cs) hShown]
      exact ⟨[], .nil parent⟩
    | true =>
      let o : Occurrence := ⟨(parent.map Occurrence.position).getD [] ++ [i],
        (parent.map Occurrence.path).getD [], .node a cs⟩
      have hUnder : o.IsUnder parent := ⟨rfl, i, rfl⟩
      have hPath : ∀ x ∈ o.path, x.attributes.isShown v = true := by
        refine List.forall_mem_append.mpr ⟨hAround, fun x hx => ?_⟩
        rw [List.mem_singleton.mp hx]
        exact hShown
      -- what is carried inside is that everything around is shown, now with the element
      obtain ⟨us, hUs⟩ := exists_traced_renderAll_under cs (some o) 0 hPath
      exact ⟨_, hUs.node rfl hUnder (List.all_eq_true.mpr hPath)⟩

/-- A rendered list has traces that show its visible elements, where all around is shown. -/
theorem exists_traced_renderAll_under : ∀ (es : List Element) (parent : Option Occurrence)
    (i : Nat), (∀ x ∈ (parent.map Occurrence.path).getD [], x.attributes.isShown v = true) →
    ∃ ts, Traces v parent
      ((occurrencesIn ((parent.map Occurrence.position).getD [])
        ((parent.map Occurrence.path).getD []) i es).filter (isVisible v))
      (renderAll v es) ts
  | [], parent, _, _ => ⟨[], .nil parent⟩
  | e :: rest, parent, i, hAround => by
    obtain ⟨ts, hFirst⟩ := exists_traced_render? e (i := i) hAround
    obtain ⟨us, hRest⟩ := exists_traced_renderAll_under rest parent (i + 1) hAround
    rw [occurrencesIn, List.filter_append, renderAll_cons]
    exact ⟨ts ++ us, hFirst.append hRest⟩

end

end Rendering

/-- **What is rendered is what is visible.** The rendered elements of any forest, in any view, can
be traced back: they show the occurrences that are visible, each of them once, in document order and
under its old parent, and what is drawn for each shows its attributes. -/
theorem exists_traced_renderAll (v : View) (roots : List Element) :
    ∃ ts : List Traced,
      Traced.forgetAll ts = renderAll v roots ∧
      Traced.sourcesOf ts = visible v roots ∧
      ((Traced.sourcesOf ts).map Occurrence.position).Nodup ∧
      ∀ t ∈ ts, Placed v none t := by
  obtain ⟨ts, hForget, hSources, hPlaced⟩ := exists_traced_renderAll_under roots none 0
    fun x hx => absurd hx List.not_mem_nil
  refine ⟨ts, hForget, hSources, ?_, hPlaced⟩
  rw [hSources]
  exact (Element.nodup_position_allOccurrences roots).sublist
    (List.filter_sublist.map Occurrence.position)

end Onboarding.Rendered
