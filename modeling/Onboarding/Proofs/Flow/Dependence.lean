import Onboarding.Flow.Render
import Onboarding.Proofs.Element.References
import Onboarding.Proofs.Variables.Agreement

/-!
# Onboarding — what a rendering depends on

Two things of an element look at variables: whether it is shown, and the texts
among its properties. Both look only at variables that the element refers to. So
a forest comes out alike over variables that agree on what it refers to, however
they differ otherwise.

## Results

* `Attributes.isShown_congr`, `Attributes.draw_congr` — what is seen of an element
  depends on the variables it refers to.
* `renderAll_congr_variablesOf` — and so does what is rendered of a forest.
-/

namespace Onboarding

open Variables (AgreeOn)

variable {v : View} {others : Variables}

/-! ## Elements -/

namespace Attributes

variable {a : Attributes}

/-- The condition of an element names variables that the element refers to. -/
theorem variableNames_subset_references {condition : Condition} (h : a.showIf = some condition) :
    condition.variableNames ⊆ a.references := by
  intro name hName
  simp [references, h, hName]

theorem tokens_subset_references {text : String} (h : .string text ∈ a.props.values) :
    Template.tokens text ⊆ a.references := by
  intro name hName
  have hTokens : name ∈ a.props.values.flatMap fun value =>
      (value.toString?.map Template.tokens).getD [] :=
    List.mem_flatMap.mpr ⟨_, h, hName⟩
  simp [references, hTokens]

/-- Whether an element is shown depends on the variables it refers to. -/
theorem isShown_congr (h : AgreeOn a.references v.vars others) :
    a.isShown { v with vars := others } = a.isShown v := by
  unfold isShown
  cases hCondition : a.showIf with
  | none => rfl
  | some condition =>
    simp only
    rw [Condition.holds_congr (h.mono (variableNames_subset_references hCondition))]

theorem fillProps_congr (h : AgreeOn a.references v.vars others) :
    fillProps others a.props = fillProps v.vars a.props := by
  refine Table.map_congr fun value hValue => ?_
  cases value with
  | string text =>
    rw [fillProp, fillProp, Template.resolve_congr (h.mono (tokens_subset_references hValue))]
  | _ => rfl

/-- What is drawn for an element depends on the variables it refers to. -/
theorem draw_congr (h : AgreeOn a.references v.vars others) :
    a.draw { v with vars := others } = a.draw v := by
  unfold draw
  simp only [fillProps_congr h]

end Attributes

/-! ## Forests -/

namespace Rendered

mutual

theorem render?_congr : ∀ {e : Element},
    (∀ x ∈ e.document, AgreeOn x.attributes.references v.vars others) →
    render? { v with vars := others } e = render? v e
  | .node a cs, h => by
    rw [Element.document, List.forall_mem_cons] at h
    have hOwn : AgreeOn a.references v.vars others := h.1
    -- the children of a hidden element are covered too, although nobody looks at them
    rw [render?, render?, Attributes.isShown_congr hOwn, Attributes.draw_congr hOwn,
      renderAll_congr h.2]

/-- What is rendered depends on the variables that the elements refer to, at any depth. -/
theorem renderAll_congr : ∀ {es : List Element},
    (∀ x ∈ Element.documents es, AgreeOn x.attributes.references v.vars others) →
    renderAll { v with vars := others } es = renderAll v es
  | [], _ => by rw [renderAll, renderAll]
  | e :: rest, h => by
    rw [Element.documents, List.forall_mem_append] at h
    rw [renderAll, renderAll, render?_congr h.1, renderAll_congr h.2]

end

/-- **Rendering reads only what the forest refers to.** Take any forest and any view, so any
selection and any waiting inputs, and let other variables agree with those of the view on all that
the forest refers to: the same value, or none on both sides. Over the other variables the same is
rendered. -/
theorem renderAll_congr_variablesOf {roots : List Element}
    (hAgree : AgreeOn (Element.variablesOf roots).keys v.vars others) :
    renderAll { v with vars := others } roots = renderAll v roots := by
  refine renderAll_congr fun e he => hAgree.mono fun name hName => ?_
  exact Element.mem_keys_variablesOf.mpr ⟨e, he, hName⟩

/-- A greeting and an input in a box for one plan, over variables with and without a token that the
screen does not refer to. -/
theorem renderAll_congr_variablesOf_greeting :
    let roots := [Element.node { id := "box", kind := .vstack, showRule := some ⟨some
      (.compare "plan" "equals" (.string "pro"))⟩ } [.label "hi" "Hi {name}", .plain "mail" .input]]
    let v : View :=
      { vars := .ofList [("name", .string "Ada"), ("plan", .string "pro"), ("token", .int 7)]
        selection := {}
        inputs := .ofList [("mail", "a@b")] }
    let others : Variables := .ofList [("name", .string "Ada"), ("plan", .string "pro")]
    (Element.variablesOf roots).keys = ["mail", "name", "plan"] ∧
      AgreeOn (Element.variablesOf roots).keys v.vars others ∧
      (renderAll v roots).length = 1 ∧
      renderAll { v with vars := others } roots = renderAll v roots := by
  intro roots v others
  have hKeys : (Element.variablesOf roots).keys = ["mail", "name", "plan"] := by decide
  have hAgree : AgreeOn (Element.variablesOf roots).keys v.vars others := by
    rw [hKeys]
    simp only [AgreeOn, List.forall_mem_cons]
    exact ⟨rfl, rfl, rfl, fun _ h => absurd h List.not_mem_nil⟩
  exact ⟨hKeys, hAgree, by decide, renderAll_congr_variablesOf hAgree⟩

end Rendered

end Onboarding
