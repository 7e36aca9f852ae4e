import Onboarding.Change.Merge
import Onboarding.Proofs.Element.Validity

/-!
# Onboarding — the order of changes

A merge asks for the changes of one element at a time, in the order of the list.
What a parent's changes hide from its children is not asked for at all, wherever
it stands. So the list counts only through the changes of each target and, for
the roots, through the insertions that name no element: lists that agree on
these merge alike, however they mix the targets.

## Results

* `mergeAll_congr` — a forest is merged by what is said to each of its elements.
* `merge_congr_targets` — only the order within one target matters.
-/

namespace Onboarding.Change

/-- The changes that insert among the roots. -/
def rootInsertions (changes : List Change) : List Change :=
  (untargeted changes).filter fun c => c.insertion.isSome

/-- The two lists have the same changes of each target and the same insertions among the roots, all
in the same order. -/
structure AgreeOnTargets (xs ys : List Change) : Prop where
  targets : ∀ id, targeting id xs = targeting id ys
  roots : rootInsertions xs = rootInsertions ys

/-! ## Merging -/

section Merging

variable {xs ys : List Change}

mutual

/-- An element is merged by what is said to it and to those inside. -/
theorem mergeNode_congr (h : ∀ id, targeting id xs = targeting id ys) :
    ∀ e : Element, mergeNode xs e = mergeNode ys e
  | .node a cs => by
    -- both lists remove, replace, edit and insert the same here, and so hide the same inside
    rw [mergeNode, mergeNode, h a.id, mergeAll_congr h cs]

theorem mergeAll_congr (h : ∀ id, targeting id xs = targeting id ys) :
    ∀ es : List Element, mergeAll xs es = mergeAll ys es
  | [] => rfl
  | e :: rest => by rw [mergeAll, mergeAll, mergeNode_congr h e, mergeAll_congr h rest]

end

/-- A change that names no element and inserts nothing leaves the roots alone. -/
theorem insertions_rootInsertions (changes : List Change) :
    insertions (rootInsertions changes) = insertions (untargeted changes) := by
  rw [insertions, rootInsertions, List.filterMap_filter, insertions]
  refine congrArg (List.filterMap · (untargeted changes)) (funext fun c => ?_)
  unfold insertedElement
  cases c.insertion <;> rfl

theorem AgreeOnTargets.merge_eq (h : AgreeOnTargets xs ys) (roots : List Element) :
    merge roots xs = merge roots ys := by
  rw [merge, merge, mergeAll_congr h.targets, ← insertions_rootInsertions, h.roots,
    insertions_rootInsertions]

end Merging

/-! ## Permutations -/

section Permutations

variable {xs ys : List Change}

/-- Lists agree if they have the same changes for every id, and the same without one. -/
theorem agree_of_filter
    (h : ∀ id : Option String, xs.filter (fun c => c.id = id) = ys.filter (fun c => c.id = id)) :
    AgreeOnTargets xs ys where
  targets id := h (some id)
  roots := congrArg (List.filter _) (h none)

/-- Lists with one change for each id agree in any order. -/
theorem agree_of_perm (hPerm : xs.Perm ys) (hDistinct : xs.Pairwise fun c d => c.id ≠ d.id) :
    AgreeOnTargets xs ys := by
  refine agree_of_filter fun id => ?_
  have hFiltered := hPerm.filter fun c => c.id = id
  have hPairwise := hDistinct.filter fun c => c.id = id
  -- at most one change has the id
  cases hXs : xs.filter fun c => c.id = id with
  | nil =>
    rw [hXs] at hFiltered
    exact hFiltered.nil_eq
  | cons c rest =>
    cases rest with
    | nil =>
      rw [hXs] at hFiltered
      exact List.singleton_perm.mp hFiltered
    | cons d rest =>
      have hAll : ∀ x ∈ c :: d :: rest, x.id = id := by
        rw [← hXs]
        exact fun x hx => of_decide_eq_true (List.mem_filter.mp hx).2
      rw [hXs] at hPairwise
      have hC := hAll c List.mem_cons_self
      have hD := hAll d (List.mem_cons_of_mem c List.mem_cons_self)
      exact absurd (hC.trans hD.symm) ((List.pairwise_cons.mp hPairwise).1 d List.mem_cons_self)

/-- Lists agree if two neighbours with different ids change places. -/
theorem agree_of_swap (front back : List Change) {c d : Change} (hNe : c.id ≠ d.id) :
    AgreeOnTargets (front ++ c :: d :: back) (front ++ d :: c :: back) := by
  refine agree_of_filter fun id => ?_
  simp only [List.filter_append, List.filter_cons, decide_eq_true_eq]
  by_cases hC : c.id = id
  · have hD : d.id ≠ id := fun hD => hNe (hC.trans hD.symm)
    rw [if_neg hD, if_neg hD]
  · rw [if_neg hC, if_neg hC]

/-- Lists agree if one has a change more that names no element and inserts nothing. -/
theorem agree_of_idle (front back : List Change) {c : Change} (hId : c.id = none)
    (hInsertion : c.insertion = none) :
    AgreeOnTargets (front ++ c :: back) (front ++ back) where
  targets id := by
    rw [targeting, targeting, List.filter_append, List.filter_append,
      List.filter_cons_of_neg (by simp [hId])]
  roots := by
    rw [rootInsertions, rootInsertions, untargeted, untargeted, List.filter_filter,
      List.filter_filter, List.filter_append, List.filter_append,
      List.filter_cons_of_neg (by simp [hInsertion])]

end Permutations

/-- **Only the order within one target matters.** Take any forest and two lists that have the same
changes for every id, and the same insertions among the roots, each in the same order: both merge to
the same forest. So changes with different ids may change places, and changes that neither name an
element nor insert one make no difference. -/
theorem merge_congr_targets (roots : List Element) :
    (∀ xs ys, AgreeOnTargets xs ys → merge roots xs = merge roots ys) ∧
    (∀ xs ys : List Change, xs.Perm ys → xs.Pairwise (fun c d => c.id ≠ d.id) →
      merge roots xs = merge roots ys) ∧
    (∀ (front back : List Change) (c d : Change), c.id ≠ d.id →
      merge roots (front ++ c :: d :: back) = merge roots (front ++ d :: c :: back)) ∧
    (∀ (front back : List Change) (c : Change), c.id = none → c.insertion = none →
      merge roots (front ++ c :: back) = merge roots (front ++ back)) := by
  refine ⟨fun xs ys h => h.merge_eq roots, ?_, ?_, ?_⟩
  · intro xs ys hPerm hDistinct
    exact (agree_of_perm hPerm hDistinct).merge_eq roots
  · intro front back c d hNe
    exact (agree_of_swap front back hNe).merge_eq roots
  · intro front back c hId hInsertion
    exact (agree_of_idle front back hId hInsertion).merge_eq roots

/-- Removals, edits and insertions of three targets, in another order and with an idle change. -/
theorem merge_congr_targets_mixed :
    let roots : List Element := [.node { id := "b", kind := .vstack } [.plain "a" .text]]
    let edited := (target "b").setProp "title" (.string "New")
    let first := insert (some "b") (.plain "x" .text) (.before "a")
    let second := insert (some "b") (.plain "y" .icon) .first
    let root := insert none (.plain "u" .divider) .first
    let xs := [removal "a", root, edited, {}, first, second]
    let ys := [edited, first, root, second, removal "a"]
    AgreeOnTargets xs ys ∧ Element.ids (merge roots xs) = ["u", "b", "y", "x"] ∧
      merge roots xs = merge roots ys ∧
      [removal "a", root, edited].Pairwise (fun c d => c.id ≠ d.id) ∧
      Element.ids (merge roots [removal "a", root, edited]) = ["u", "b"] ∧
      merge roots [removal "a", root, edited] = merge roots [edited, root, removal "a"] := by
  intro roots edited first second root xs ys
  have hAgree : AgreeOnTargets xs ys := by
    refine ⟨fun id => ?_, rfl⟩
    by_cases hA : "a" = id
    · subst hA
      rfl
    · by_cases hB : "b" = id
      · subst hB
        rfl
      · simp [targeting, xs, ys, edited, first, second, root, removal, target, setProp, insert, hA,
          hB]
  have hDistinct : [removal "a", root, edited].Pairwise (fun c d => c.id ≠ d.id) := by
    decide
  obtain ⟨hMerge, hPermuted, -, -⟩ := merge_congr_targets roots
  have hIds : Element.ids (merge roots xs) = ["u", "b", "y", "x"] := by decide
  have hPermutedIds : Element.ids (merge roots [removal "a", root, edited]) = ["u", "b"] := by
    decide
  exact ⟨hAgree, hIds, hMerge xs ys hAgree, hDistinct, hPermutedIds,
    hPermuted _ _ (List.reverse_perm _).symm hDistinct⟩

end Onboarding.Change
