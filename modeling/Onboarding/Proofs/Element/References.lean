import Onboarding.Element.References
import Onboarding.Proofs.Element.Validity

/-!
# Onboarding — which variables a forest refers to

The collector passes over nothing, so it sees the document of the forest and has
in the end what any of its elements refers to.

## Results

* `mem_keys_variablesOf` — a forest refers to what its elements refer to.
-/

namespace Onboarding.Element

section Collecting

variable {σ : Type}

/-- A visitor that goes on after every element folds the document. -/
theorem visitEach_proceed (f : σ → Element → σ) (s : σ) (es : List Element) :
    visitEach (fun s e _ => (f s e, .proceed)) s es = (es.foldl f s, true) := by
  induction es generalizing s with
  | nil => rfl
  | cons e rest ih => exact ih (f s e)

theorem walk_proceed (f : σ → Element → σ) (s : σ) (roots : List Element) :
    walk (fun s e _ => (f s e, .proceed)) s roots = (documents roots).foldl f s := by
  rw [walk, visitAll_eq_visitEach (fun _ _ _ => rfl) (fun _ _ => by simp), visitEach_proceed]

end Collecting

/-- Names that are collected stay, and every element adds its own. -/
theorem mem_keys_foldl_addAll {s : NameSet} {es : List Element} {name : String} :
    name ∈ (es.foldl (fun s e => s.addAll e.attributes.references) s).keys ↔
      (∃ e ∈ es, name ∈ e.attributes.references) ∨ name ∈ s.keys := by
  induction es generalizing s with
  | nil => simp
  | cons e rest ih =>
    rw [List.foldl_cons, ih, NameSet.mem_keys_addAll, List.exists_mem_cons_iff, ← or_assoc,
      or_comm (a := ∃ x ∈ rest, _)]

/-- A forest refers to the variables that its elements refer to. -/
theorem mem_keys_variablesOf {roots : List Element} {name : String} :
    name ∈ (variablesOf roots).keys ↔
      ∃ e ∈ documents roots, name ∈ e.attributes.references := by
  have hEmpty : name ∉ (∅ : NameSet).keys := List.not_mem_nil
  rw [variablesOf, walk_proceed, mem_keys_foldl_addAll, or_iff_left hEmpty]

end Onboarding.Element
