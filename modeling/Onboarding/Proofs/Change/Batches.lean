import Onboarding.Proofs.Change.Repetition

/-!
# Onboarding — one batch of changes or several

Edits and removals may come in the same list as the changes behind them or in a
list of their own, merged before. An edit keeps the id and the kind of its
element, so the later changes find it as if it had not been edited yet, and what
has been removed is out of reach of all changes either way.

## Results

* `mergeNode_of_edits` — what edits and removals make of an element.
* `mergeAll_append` — the elements of a forest, merged in one batch or in two.
* `merge_append` — edits and removals may be merged on their own.
-/

namespace Onboarding

open Element (ids)

namespace Change

/-- The change edits or removes: it neither gives children nor inserts. -/
structure EditsOnly (c : Change) : Prop where
  children : c.children = none
  insertion : c.insertion = none

section Batches

variable {xs ys : List Change}

theorem targeting_append (id : String) (xs ys : List Change) :
    targeting id (xs ++ ys) = targeting id xs ++ targeting id ys := List.filter_append xs ys

theorem untargeted_append (xs ys : List Change) :
    untargeted (xs ++ ys) = untargeted xs ++ untargeted ys := List.filter_append xs ys

theorem insertions_append (xs ys : List Change) :
    insertions (xs ++ ys) = insertions xs ++ insertions ys := List.filterMap_append

/-! ## Edits and removals -/

theorem insertions_of_edits (h : ∀ c ∈ xs, c.EditsOnly) : insertions xs = [] := by
  rw [insertions, List.filterMap_eq_nil_iff]
  intro c hc
  rw [insertedElement, (h c hc).insertion]
  rfl

/-- Edits and removals do not count among the changes that replace children. -/
theorem replacement_append_of_edits (h : ∀ c ∈ xs, c.EditsOnly) (ys : List Change) :
    replacement (xs ++ ys) = replacement ys := by
  have hNone : xs.filterMap Change.children = [] :=
    List.filterMap_eq_nil_iff.mpr fun c hc => (h c hc).children
  rw [replacement, List.filterMap_append, hNone, List.nil_append, replacement]

theorem edits_targeting (h : ∀ c ∈ xs, c.EditsOnly) (id : String) :
    ∀ c ∈ targeting id xs, c.EditsOnly := fun c hc => h c (targeting_subset id hc)

theorem insertInto_nil (siblings : List Element) : insertInto siblings [] = siblings :=
  insertInto_of_present fun _ hi => absurd hi List.not_mem_nil

/-- Edits and removals drop an element, or write its attributes and go on inside. -/
theorem mergeNode_of_edits (h : ∀ c ∈ xs, c.EditsOnly) (a : Attributes) (cs : List Element) :
    mergeNode xs (.node a cs) = if (targeting a.id xs).any Change.remove then none
      else some (.node ((targeting a.id xs).foldl (fun a c => c.edit a) a) (mergeAll xs cs)) := by
  have hOwn := edits_targeting h a.id
  have hReplacement : replacement (targeting a.id xs) = none := by
    rw [← List.append_nil (targeting a.id xs), replacement_append_of_edits hOwn]
    rfl
  rw [mergeNode]
  dsimp only
  -- a container and a leaf come out alike
  rw [hReplacement, insertions_of_edits hOwn, insertInto_nil, ite_self]

/-! ## Behind edits and removals -/

mutual

/-- Later changes are merged into what the earlier ones leave of an element. -/
theorem mergeNode_append (h : ∀ c ∈ xs, c.EditsOnly) : ∀ e : Element,
    mergeNode (xs ++ ys) e = (mergeNode xs e).bind (mergeNode ys)
  | .node a cs => by
    have hOwn := edits_targeting h a.id
    have hEdited := rewritten_foldl_edit xs a
    have hInside := mergeAll_append h cs
    rw [mergeNode_of_edits h, mergeNode, targeting_append, List.any_append, List.foldl_append,
      replacement_append_of_edits hOwn, insertions_append, insertions_of_edits hOwn,
      List.nil_append, hInside]
    cases (targeting a.id xs).any Change.remove with
    | true => rfl  -- removed either way, with everything inside
    | false =>
      -- the edited element keeps its id and kind, so the later changes are the same for it
      generalize (targeting a.id xs).foldl (fun a c => c.edit a) a = edited at hEdited ⊢
      rw [Bool.false_or, if_neg Bool.false_ne_true, Option.bind_some, mergeNode, hEdited.id,
        hEdited.kind]

/-- Later changes are merged into what the earlier ones leave of the elements. -/
theorem mergeAll_append (h : ∀ c ∈ xs, c.EditsOnly) : ∀ es : List Element,
    mergeAll (xs ++ ys) es = mergeAll ys (mergeAll xs es)
  | [] => rfl
  | e :: rest => by
    rw [mergeAll, mergeNode_append h e, mergeAll_append h rest, mergeAll]
    cases mergeNode xs e with
    | none => rfl
    | some edited => rfl

end

end Batches

/-- **Edits and removals may be merged on their own.** Take any forest, any changes that only edit
and remove, and any changes behind them, of these kinds or not. Merging them all in one list gives
what merging the first ones and then the others gives, whatever they name and however often its id
stands in the forest. -/
theorem merge_append (roots : List Element) {xs : List Change} (h : ∀ c ∈ xs, c.EditsOnly)
    (ys : List Change) : merge roots (xs ++ ys) = merge (merge roots xs) ys := by
  have hUntargeted : ∀ c ∈ untargeted xs, c.EditsOnly :=
    fun c hc => h c (List.filter_sublist.subset hc)
  have hNone := insertions_of_edits hUntargeted
  have hAlone : merge roots xs = mergeAll xs roots := by rw [merge, hNone, insertInto_nil]
  rw [hAlone, merge, merge, mergeAll_append h, untargeted_append, insertions_append, hNone,
    List.nil_append]

/-- An id that stands twice, edited by both lists, a removal that hides edits of the other list, and
an insertion behind. -/
theorem merge_append_mixed :
    let roots : List Element := [.node { id := "r", kind := .vstack }
      [.plain "a" .text, .node { id := "b", kind := .hstack } [.plain "a" .icon]]]
    let xs := [(target "a").setProp "text" (.string "Old"), removal "b"]
    let ys := [(target "b").setStyle "color" (.string "red"),
      (target "a").setProp "text" (.string "New"), insert (some "r") (.plain "c" .text) .first]
    (∀ c ∈ xs, c.EditsOnly) ∧ ids (merge roots xs) = ["r", "a"] ∧
      ids (merge roots (xs ++ ys)) = ["r", "c", "a"] ∧
      merge roots (xs ++ ys) = merge (merge roots xs) ys := by
  intro roots xs ys
  have hEdits : ∀ c ∈ xs, c.EditsOnly :=
    List.forall_mem_cons.mpr ⟨⟨rfl, rfl⟩, List.forall_mem_cons.mpr
      ⟨⟨rfl, rfl⟩, fun _ h => absurd h List.not_mem_nil⟩⟩
  exact ⟨hEdits, by decide, by decide, merge_append roots hEdits ys⟩

/-- An insertion is not merged on its own like this: a removal behind it reaches what it inserts
only from another list. -/
example :
    let xs := [insert none (.plain "x" .text) .last]
    ids (merge [] (xs ++ [removal "x"])) = ["x"] ∧
      ids (merge (merge [] xs) [removal "x"]) = [] := by
  decide

end Change

end Onboarding
