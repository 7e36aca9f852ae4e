import Onboarding.Element.Basic

/-!
# Onboarding — occurrences of elements in a forest

Equal elements may stand at several places of a forest. An `Occurrence` is an
element together with where it stands: the indices that lead to it and the
elements around it, the root first. The occurrences of a forest are listed in
document order.

## Results

* `map_element_allOccurrences` — the occurrences are the document.
* `nodup_position_allOccurrences` — no two of them stand at the same place.
* `path_of_mem_occurrences` — below an element all occurrences have it around
  them.
-/

namespace Onboarding.Element

/-- An element where it stands in a forest. -/
structure Occurrence where
  /-- The indices of the ancestors and the element itself among their siblings, the root first. -/
  position : List Nat
  /-- The elements around it, the root first. -/
  ancestors : List Element
  element : Element

namespace Occurrence

/-- The ancestors and the element itself. -/
def path (o : Occurrence) : List Element := o.ancestors ++ [o.element]

/-- Whether the occurrence stands directly below another one, or is a root. -/
def IsUnder (parent : Option Occurrence) (o : Occurrence) : Prop :=
  o.ancestors = (parent.map path).getD [] ∧
    ∃ i, o.position = (parent.map position).getD [] ++ [i]

end Occurrence

mutual

/-- An element and everything inside, where they stand. -/
def occurrences (position : List Nat) (ancestors : List Element) : Element → List Occurrence
  | node a cs =>
    ⟨position, ancestors, node a cs⟩ :: occurrencesIn position (ancestors ++ [node a cs]) 0 cs

/-- Siblings and everything inside; the first of them has the index `i`. -/
def occurrencesIn (position : List Nat) (ancestors : List Element) (i : Nat) :
    List Element → List Occurrence
  | [] => []
  | e :: rest =>
    occurrences (position ++ [i]) ancestors e ++ occurrencesIn position ancestors (i + 1) rest

end

/-- Everything in a forest, in document order. -/
def allOccurrences (roots : List Element) : List Occurrence := occurrencesIn [] [] 0 roots

/-! ## Elements -/

mutual

theorem map_element_occurrences : ∀ (e : Element) (position : List Nat) (ancestors : List Element),
    (occurrences position ancestors e).map Occurrence.element = document e
  | node a cs, position, ancestors => by
    rw [occurrences, List.map_cons, map_element_occurrencesIn cs, document]

theorem map_element_occurrencesIn : ∀ (es : List Element) (position : List Nat)
    (ancestors : List Element) (i : Nat),
    (occurrencesIn position ancestors i es).map Occurrence.element = documents es
  | [], _, _, _ => rfl
  | e :: rest, position, ancestors, i => by
    rw [occurrencesIn, List.map_append, map_element_occurrences e, map_element_occurrencesIn rest,
      documents]

end

/-- The occurrences are the document. -/
theorem map_element_allOccurrences (roots : List Element) :
    (allOccurrences roots).map Occurrence.element = documents roots :=
  map_element_occurrencesIn roots [] [] 0

/-! ## Places -/

mutual

/-- Where an element is around, it is around everything inside. -/
theorem path_of_mem_occurrences : ∀ (e : Element) {position : List Nat} {ancestors : List Element}
    {o : Occurrence}, o ∈ occurrences position ancestors e →
    ancestors ++ [e] <+: o.path ∧ position <+: o.position
  | node a cs, position, ancestors, o, h => by
    rw [occurrences, List.mem_cons] at h
    rcases h with rfl | h
    · exact ⟨List.prefix_refl _, List.prefix_refl _⟩
    · obtain ⟨hAncestors, j, -, hPosition⟩ := path_of_mem_occurrencesIn cs h
      exact ⟨hAncestors.trans (List.prefix_append _ _),
        (List.prefix_append _ _).trans hPosition⟩

theorem path_of_mem_occurrencesIn : ∀ (es : List Element) {position : List Nat}
    {ancestors : List Element} {i : Nat} {o : Occurrence},
    o ∈ occurrencesIn position ancestors i es →
    ancestors <+: o.ancestors ∧ ∃ j, i ≤ j ∧ position ++ [j] <+: o.position
  | [], _, _, _, _, h => by simp [occurrencesIn] at h
  | e :: rest, position, ancestors, i, o, h => by
    rw [occurrencesIn, List.mem_append] at h
    rcases h with h | h
    · obtain ⟨hPath, hPosition⟩ := path_of_mem_occurrences e h
      refine ⟨?_, i, Nat.le_refl i, hPosition⟩
      -- the path goes on behind the ancestors by at least the element itself
      obtain ⟨more, hMore⟩ := hPath
      rw [Occurrence.path, List.append_assoc, List.singleton_append] at hMore
      refine List.prefix_of_prefix_length_le (List.prefix_append _ (e :: more))
        (hMore ▸ List.prefix_append _ _) ?_
      have hLength := congrArg List.length hMore
      simp only [List.length_append, List.length_cons, List.length_nil] at hLength
      omega
    · obtain ⟨hAncestors, j, hj, hPosition⟩ := path_of_mem_occurrencesIn rest h
      exact ⟨hAncestors, j, by omega, hPosition⟩

end

mutual

theorem nodup_position_occurrences : ∀ (e : Element) (position : List Nat)
    (ancestors : List Element),
    ((occurrences position ancestors e).map Occurrence.position).Nodup
  | node a cs, position, ancestors => by
    rw [occurrences, List.map_cons, List.nodup_cons]
    -- every position inside is longer than that of the element
    refine ⟨?_, nodup_position_occurrencesIn cs _ _ _⟩
    rw [List.mem_map]
    rintro ⟨o, ho, hPosition⟩
    obtain ⟨-, j, -, hPrefix⟩ := path_of_mem_occurrencesIn cs ho
    have hLength := hPrefix.length_le
    have hPosition : o.position = position := hPosition
    rw [hPosition, List.length_append, List.length_singleton] at hLength
    omega

theorem nodup_position_occurrencesIn : ∀ (es : List Element) (position : List Nat)
    (ancestors : List Element) (i : Nat),
    ((occurrencesIn position ancestors i es).map Occurrence.position).Nodup
  | [], _, _, _ => List.nodup_nil
  | e :: rest, position, ancestors, i => by
    rw [occurrencesIn, List.map_append, List.nodup_append]
    refine ⟨nodup_position_occurrences e _ _, nodup_position_occurrencesIn rest _ _ _, ?_⟩
    intro p hp q hq hEq
    obtain ⟨o, ho, rfl⟩ := List.mem_map.mp hp
    obtain ⟨o', ho', rfl⟩ := List.mem_map.mp hq
    -- the two places differ in the index of the sibling
    obtain ⟨-, hFirst⟩ := path_of_mem_occurrences e ho
    obtain ⟨-, j, hj, hSecond⟩ := path_of_mem_occurrencesIn rest ho'
    rw [← hEq] at hSecond
    have hPrefix := List.prefix_of_prefix_length_le hFirst hSecond (by simp)
    have hSame := hPrefix.eq_of_length (by simp)
    rw [List.append_cancel_left_eq, List.singleton_inj] at hSame
    omega

end

/-- No two occurrences stand at the same place. -/
theorem nodup_position_allOccurrences (roots : List Element) :
    ((allOccurrences roots).map Occurrence.position).Nodup :=
  nodup_position_occurrencesIn roots [] [] 0

end Onboarding.Element
