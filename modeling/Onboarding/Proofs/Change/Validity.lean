import Mathlib.Algebra.BigOperators.Group.List.Basic
import Mathlib.Algebra.Ring.Nat
import Mathlib.Data.List.Flatten
import Onboarding.Proofs.Change.Provenance
import Onboarding.Proofs.Element.Validity

/-!
# Onboarding — merged forests stay well formed

Changes bring elements into a forest: those they insert, and the children they
give. A merge takes each of them at most once. What an element takes in comes
from the changes that name it, and where no two elements share an id, no change
is asked for twice (`brought_split_le`).

Ids are counted: an id stands in a merged forest at most as often as in the
forest and in what the changes bring, together.

## Results

* `count_mergeAll_le` — what the elements of a forest take in.
* `proper_mergeAll` — no element gets children that may not have any.
* `validate_merge` — the merge of a forest that passes the check passes it, if
  what the changes bring is new and well formed.
-/

namespace Onboarding

namespace Element

/-- Two lists have the elements of both. -/
theorem documents_append (xs ys : List Element) :
    documents (xs ++ ys) = documents xs ++ documents ys := by
  rw [documents_eq, documents_eq, documents_eq, List.flatMap_append]

/-- An element of a forest is inside one of the roots. -/
theorem mem_documents {e : Element} {es : List Element} :
    e ∈ documents es ↔ ∃ root ∈ es, e ∈ document root := by
  rw [documents_eq, List.mem_flatMap]

/-- Two lists have the ids of both. -/
theorem ids_append (xs ys : List Element) : ids (xs ++ ys) = ids xs ++ ids ys := by
  rw [ids, documents_append, List.map_append]
  rfl

/-- The ids of a list are those of its first element and those of the others. -/
theorem ids_cons (e : Element) (rest : List Element) : ids (e :: rest) = ids [e] ++ ids rest :=
  ids_append [e] rest

/-- An element has its own id first, and then those inside. -/
theorem ids_node (a : Attributes) (cs : List Element) : ids [node a cs] = a.id :: ids cs := by
  rw [ids, documents, document, documents, List.append_nil, List.map_cons]
  rfl

/-- In another order a list has the same ids, as often. -/
theorem ids_perm {xs ys : List Element} (h : xs.Perm ys) : (ids xs).Perm (ids ys) := by
  rw [ids, ids, documents_eq, documents_eq]
  exact (h.flatMap_right document).map Element.id

/-- A list that is left of another has no id more often. -/
theorem count_ids_le_of_sublist {xs ys : List Element} (h : xs.Sublist ys) (id : String) :
    (ids xs).count id ≤ (ids ys).count id := by
  rw [ids, ids, documents_eq, documents_eq]
  exact ((h.flatMap document).map Element.id).count_le id

end Element

open Element (ids documents ids_append ids_node)

namespace Change

/-- The elements that a change brings: what it inserts, and the children that it gives. -/
def payload (c : Change) : List Element := c.insertedElement.toList ++ c.children.getD []

/-- The elements that changes bring. -/
def brought (changes : List Change) : List Element := changes.flatMap payload

section Counting

variable {changes : List Change} {id : String}

/-! ## What is taken in -/

/-- The elements that changes insert, in their order. -/
theorem insertions_map_fst (own : List Change) :
    (insertions own).map Prod.fst = own.filterMap insertedElement := by
  rw [insertions, List.map_filterMap]
  refine congrArg (List.filterMap · own) (funext fun c => ?_)
  cases c.insertedElement <;> rfl

/-- An insertion puts in no more than what is inserted. -/
theorem count_insertInto_le (siblings : List Element) (own : List Change) (id : String) :
    (ids (insertInto siblings (insertions own))).count id ≤
      (ids siblings).count id + (ids (own.filterMap insertedElement)).count id := by
  have hPerm := Element.ids_perm (insertInto_perm siblings (insertions own))
  have hAccepted := (Slots.accepted_sublist (siblings.map Element.id) (insertions own)).map Prod.fst
  rw [insertions_map_fst] at hAccepted
  have hLess := Element.count_ids_le_of_sublist hAccepted id
  rw [hPerm.count_eq, ids_append, List.count_append]
  omega

/-- What is inserted and the last children that are given are part of what is brought. -/
theorem count_inserted_add_given_le (own : List Change) (id : String) :
    (ids (own.filterMap insertedElement)).count id +
      (ids ((replacement own).getD [])).count id ≤ (ids (brought own)).count id := by
  induction own with
  | nil => exact Nat.zero_le _
  | cons c own ih =>
    have hBrought : (ids (brought (c :: own))).count id =
        (ids c.insertedElement.toList).count id + (ids (c.children.getD [])).count id +
          (ids (brought own)).count id := by
      rw [brought, List.flatMap_cons, payload, ids_append, ids_append, List.count_append,
        List.count_append]
      rfl
    have hInserted : (ids ((c :: own).filterMap insertedElement)).count id =
        (ids c.insertedElement.toList).count id +
          (ids (own.filterMap insertedElement)).count id := by
      rw [List.filterMap_cons]
      cases c.insertedElement with
      | none => exact (Nat.zero_add _).symm
      | some e => rw [Element.ids_cons, List.count_append]; rfl
    -- the children that this change gives count only if no later one gives any
    have hGiven : (ids ((replacement (c :: own)).getD [])).count id ≤
        (ids (c.children.getD [])).count id + (ids ((replacement own).getD [])).count id := by
      rw [replacement, replacement, List.filterMap_cons]
      cases c.children with
      | none => exact Nat.le_add_left _ _
      | some cs =>
        dsimp only
        rw [List.getLast?_cons]
        cases (own.filterMap Change.children).getLast? with
        | none => exact Nat.le_add_right _ _
        | some later => exact Nat.le_add_left _ _
    omega

/-- How often an id stands in what the changes bring that name another id. -/
def gain (changes : List Change) (id target : String) : Nat :=
  (ids (brought (targeting target changes))).count id

mutual

/-- What an element and those inside take in is brought by the changes that name them. -/
theorem count_mergeNode_le (changes : List Change) (id : String) : ∀ e : Element,
    (ids (mergeNode changes e).toList).count id ≤
      (ids [e]).count id + ((ids [e]).map (gain changes id)).sum
  | .node a cs => by
    have hInside := count_mergeAll_le changes id cs
    have hOwn : _ ≤ gain changes id a.id := count_inserted_add_given_le _ id
    have hName : ((targeting a.id changes).foldl (fun a c => c.edit a) a).id = a.id :=
      (rewritten_foldl_edit changes a).id
    rw [ids_node, List.map_cons, List.sum_cons, List.count_cons]
    rw [mergeNode]
    split
    · exact Nat.zero_le _
    · split
      · -- a container takes in what is inserted, and its children may be replaced
        have hInserted (kept : List Element) := count_insertInto_le kept (targeting a.id changes) id
        rw [Option.toList_some, ids_node, hName, List.count_cons]
        cases hGiven : replacement (targeting a.id changes) with
        | some given =>
          have hKept := hInserted given
          rw [hGiven, Option.getD_some] at hOwn
          dsimp only
          omega
        | none =>
          have hKept := hInserted (mergeAll changes cs)
          dsimp only
          omega
      · rw [Option.toList_some, ids_node, hName, List.count_cons]
        omega

/-- Merging gives a list no id more often than it has it and its elements gain it. -/
theorem count_mergeAll_le (changes : List Change) (id : String) : ∀ es : List Element,
    (ids (mergeAll changes es)).count id ≤
      (ids es).count id + ((ids es).map (gain changes id)).sum
  | [] => Nat.zero_le _
  | e :: rest => by
    have hFirst := count_mergeNode_le changes id e
    have hRest := count_mergeAll_le changes id rest
    rw [mergeAll_cons, Element.ids_cons e rest, ids_append, List.count_append, List.count_append,
      List.map_append, List.sum_append]
    omega

end

/-! ## Every change is asked once -/

/-- Of distinct targets a change names at most one. -/
theorem sum_named_le {targets : List String} (hDistinct : targets.Nodup) (c : Change) (n : Nat) :
    (targets.map fun target => if c.id = some target then n else 0).sum +
      (if c.id = none then n else 0) ≤ n := by
  cases hId : c.id with
  | none => simp
  | some target =>
    simp only [Option.some.injEq, reduceCtorEq, if_false, Nat.add_zero]
    induction targets with
    | nil => simp
    | cons first rest ih =>
      obtain ⟨hFirst, hRest⟩ := List.nodup_cons.mp hDistinct
      rw [List.map_cons, List.sum_cons]
      by_cases hTarget : target = first
      · -- no other target has this name
        have hNone : (rest.map fun other => if target = other then n else 0) =
            rest.map fun _ => 0 := by
          refine List.map_congr_left fun other hOther => if_neg ?_
          rintro rfl
          exact hFirst (hTarget ▸ hOther)
        rw [if_pos hTarget, hNone]
        simp
      · rw [if_neg hTarget, Nat.zero_add]
        exact ih hRest

/-- What changes bring to distinct elements and to the roots is part of what they bring. -/
theorem brought_split_le {targets : List String} (hDistinct : targets.Nodup)
    (changes : List Change) (id : String) :
    (targets.map (gain changes id)).sum + (ids (brought (untargeted changes))).count id ≤
      (ids (brought changes)).count id := by
  -- one change more adds its payload to the left at most once: at its target, or at the root
  induction changes with
  | nil =>
    have hNone : targets.map (gain [] id) = targets.map fun _ => 0 := rfl
    rw [hNone]
    simp [untargeted, brought, ids, documents]
  | cons c changes ih =>
    have hOnce := sum_named_le hDistinct c ((ids (payload c)).count id)
    have hCount (more : List Change) : (ids (brought (c :: more))).count id =
        (ids (payload c)).count id + (ids (brought more)).count id := by
      rw [brought, List.flatMap_cons, ids_append, List.count_append]
      rfl
    have hGain : targets.map (gain (c :: changes) id) = targets.map fun target =>
        (if c.id = some target then (ids (payload c)).count id else 0) +
          gain changes id target := by
      refine List.map_congr_left fun target _ => ?_
      rw [gain, targeting, List.filter_cons]
      by_cases hTarget : c.id = some target
      · simp only [hTarget, decide_true, if_true, hCount]
        rfl
      · simp only [hTarget, decide_false, Bool.false_eq_true, if_false, Nat.zero_add]
        rfl
    have hRoots : (ids (brought (untargeted (c :: changes)))).count id =
        (if c.id = none then (ids (payload c)).count id else 0) +
          (ids (brought (untargeted changes))).count id := by
      rw [untargeted, List.filter_cons]
      by_cases hRoot : c.id = none
      · simp only [hRoot, decide_true, if_true, hCount]
        rfl
      · simp only [hRoot, decide_false, Bool.false_eq_true, if_false, Nat.zero_add]
        rfl
    rw [hGain, List.sum_map_add, hRoots, hCount]
    omega

end Counting

/-! ## Only containers get children -/

section Proper

variable {changes : List Change}

/-- An inserted element is brought. -/
theorem mem_brought_of_inserted {e : Element} (h : e ∈ changes.filterMap insertedElement) :
    e ∈ brought changes := by
  obtain ⟨c, hc, hInserted⟩ := List.mem_filterMap.mp h
  refine List.mem_flatMap.mpr ⟨c, hc, List.mem_append_left _ ?_⟩
  rw [hInserted]
  exact List.mem_singleton.mpr rfl

/-- A child that replaces others is brought. -/
theorem mem_brought_of_replacement {es : List Element} (h : replacement changes = some es)
    {e : Element} (he : e ∈ es) : e ∈ brought changes := by
  obtain ⟨c, hc, hGiven⟩ := List.mem_filterMap.mp (List.mem_of_getLast? h)
  refine List.mem_flatMap.mpr ⟨c, hc, List.mem_append_right _ ?_⟩
  rw [hGiven]
  exact he

/-- Fewer changes bring no other elements. -/
theorem brought_subset {own : List Change} (h : own ⊆ changes) : brought own ⊆ brought changes := by
  intro e he
  obtain ⟨c, hc, hPayload⟩ := List.mem_flatMap.mp he
  exact List.mem_flatMap.mpr ⟨c, h hc, hPayload⟩

/-- A forest whose roots are among others is as proper as they are. -/
theorem proper_of_subset {xs ys : List Element} (h : xs ⊆ ys)
    (hProper : ∀ e ∈ documents ys, e.Proper) : ∀ e ∈ documents xs, e.Proper := by
  intro e he
  obtain ⟨root, hRoot, he⟩ := Element.mem_documents.mp he
  exact hProper e (Element.mem_documents.mpr ⟨root, h hRoot, he⟩)

/-- Proper elements stay proper when proper ones are inserted between them. -/
theorem proper_insertInto {siblings : List Element} {own : List Change} (hOwn : own ⊆ changes)
    (hSiblings : ∀ e ∈ documents siblings, e.Proper)
    (hBrought : ∀ e ∈ documents (brought changes), e.Proper) :
    ∀ e ∈ documents (insertInto siblings (insertions own)), e.Proper := by
  intro e he
  obtain ⟨root, hRoot, he⟩ := Element.mem_documents.mp he
  have hMem := (insertInto_perm siblings (insertions own)).mem_iff.mp hRoot
  rcases List.mem_append.mp hMem with hMem | hMem
  · exact hSiblings e (Element.mem_documents.mpr ⟨root, hMem, he⟩)
  · have hInserted := ((Slots.accepted_sublist _ (insertions own)).map Prod.fst).subset hMem
    rw [insertions_map_fst] at hInserted
    exact hBrought e (Element.mem_documents.mpr
      ⟨root, brought_subset hOwn (mem_brought_of_inserted hInserted), he⟩)

/-- The changes of an element are some of all changes. -/
theorem targeting_subset (id : String) : targeting id changes ⊆ changes :=
  List.filter_sublist.subset

mutual

/-- What is merged of a proper element is proper if all that is brought is. -/
theorem proper_mergeNode (hBrought : ∀ e ∈ documents (brought changes), e.Proper) :
    ∀ e : Element, (∀ x ∈ Element.document e, x.Proper) →
      ∀ x ∈ documents (mergeNode changes e).toList, x.Proper
  | .node a cs, hProper => by
    rw [Element.document, List.forall_mem_cons] at hProper
    obtain ⟨hSelf, hInside⟩ := hProper
    have hMerged := proper_mergeAll hBrought cs hInside
    have hKind : ((targeting a.id changes).foldl (fun a c => c.edit a) a).kind = a.kind :=
      (rewritten_foldl_edit changes a).kind
    -- the element itself is proper if it is a container or has no children, as before
    have hNode {new : List Element} (hNew : ∀ x ∈ documents new, x.Proper)
        (hLeaf : a.kind.holdsChildren = false → new = []) :
        ∀ x ∈ documents (some (Element.node
          ((targeting a.id changes).foldl (fun a c => c.edit a) a) new)).toList, x.Proper := by
      rw [Option.toList_some, documents, documents, List.append_nil, Element.document,
        List.forall_mem_cons]
      refine ⟨fun hLeafNow => hLeaf ?_, hNew⟩
      rw [← hKind]
      exact hLeafNow
    rw [mergeNode]
    split
    · exact fun x hx => absurd hx List.not_mem_nil
    · split
      · next hContainer =>
        refine hNode (proper_insertInto (targeting_subset a.id) ?_ hBrought) fun hLeaf => ?_
        · cases hGiven : replacement (targeting a.id changes) with
          | some given =>
            refine proper_of_subset (fun e he => ?_) hBrought
            exact brought_subset (targeting_subset a.id) (mem_brought_of_replacement hGiven he)
          | none => exact hMerged
        · rw [hContainer] at hLeaf
          cases hLeaf
      · -- what is no container has no children to begin with
        refine hNode hMerged fun hLeaf => ?_
        rw [show cs = [] from hSelf hLeaf, mergeAll]

theorem proper_mergeAll (hBrought : ∀ e ∈ documents (brought changes), e.Proper) :
    ∀ es : List Element, (∀ x ∈ documents es, x.Proper) →
      ∀ x ∈ documents (mergeAll changes es), x.Proper
  | [], _ => fun x hx => absurd hx List.not_mem_nil
  | e :: rest, hProper => by
    rw [documents, List.forall_mem_append] at hProper
    have hFirst := proper_mergeNode hBrought e hProper.1
    have hRest := proper_mergeAll hBrought rest hProper.2
    rw [mergeAll_cons, Element.documents_append, List.forall_mem_append]
    exact ⟨hFirst, hRest⟩

end

end Proper

/-! ## Merged forests -/

/-- **Merging keeps forests well formed.** Take a forest that passes the check and any changes,
whatever they name, remove, replace or insert, wherever and in whichever order. If the ids of all
elements that they bring are distinct and new to the forest, and only containers among these
elements have children, then the merged forest passes the check. -/
theorem validate_merge {roots : List Element} {changes : List Change}
    (hRoots : Element.validate roots = .ok ()) (hDistinct : (ids (brought changes)).Nodup)
    (hNew : ∀ id ∈ ids (brought changes), id ∉ ids roots)
    (hProper : ∀ e ∈ documents (brought changes), e.Proper) :
    Element.validate (merge roots changes) = .ok () := by
  obtain ⟨hNodup, hRootsProper⟩ := Element.validate_eq_ok_iff.mp hRoots
  refine Element.validate_eq_ok_iff.mpr ⟨List.nodup_iff_count_le_one.mpr fun id => ?_, ?_⟩
  · have hInserted := count_insertInto_le (mergeAll changes roots) (untargeted changes) id
    have hUntargeted := count_inserted_add_given_le (untargeted changes) id
    have hMerged := count_mergeAll_le changes id roots
    have hSplit := brought_split_le hNodup changes id
    -- together, forest and changes have every id once at most
    have hTogether : (ids roots ++ ids (brought changes)).Nodup := by
      refine List.nodup_append.mpr ⟨hNodup, hDistinct, fun old hOld new hNewId hSame => ?_⟩
      exact hNew new hNewId (hSame ▸ hOld)
    have hOnce := List.nodup_iff_count_le_one.mp hTogether id
    rw [List.count_append] at hOnce
    unfold merge
    omega
  · exact proper_insertInto List.filter_sublist.subset
      (proper_mergeAll hProper roots hRootsProper) hProper

/-- Children are replaced and inserted into, an anchor is removed, and a leaf is asked to take
children. -/
theorem validate_merge_mixed :
    let roots : List Element := [.node { id := "r", kind := .vstack }
      [.plain "a" .text, .node { id := "b", kind := .hstack } [.plain "c" .icon]]]
    let changes : List Change := [.removal "a", .insert (some "r") (.plain "x" .text) (.before "a"),
      (target "b").setChildren [.plain "y" .image],
      .insert (some "b") (.node { id := "z", kind := .zstack } [.plain "w" .text]) (.after "c"),
      (target "c").setChildren [.plain "v" .text], .insert none (.plain "u" .divider) .first]
    (Element.validate roots = .ok () ∧ (ids (brought changes)).Nodup ∧
      (∀ id ∈ ids (brought changes), id ∉ ids roots) ∧
      ∀ e ∈ documents (brought changes), e.Proper) ∧
    ids (merge roots changes) = ["u", "r", "b", "y", "z", "w", "x"] ∧
    Element.validate (merge roots changes) = .ok () := by
  intro roots changes
  have hRoots : Element.validate roots = .ok () := rfl
  have hDistinct : (ids (brought changes)).Nodup := by decide
  have hNew : ∀ id ∈ ids (brought changes), id ∉ ids roots := by decide
  have hProper : ∀ e ∈ documents (brought changes), e.Proper := by
    simp [changes, brought, payload, documents, Element.document, Element.Proper, removal, target,
      setChildren, insert, insertedElement, Insertion.element, Element.plain, Element.children,
      Element.kind, Element.attributes, ElementKind.holdsChildren]
  have hIds : ids (merge roots changes) = ["u", "r", "b", "y", "z", "w", "x"] := by decide
  exact ⟨⟨hRoots, hDistinct, hNew, hProper⟩, hIds, validate_merge hRoots hDistinct hNew hProper⟩

end Change

end Onboarding
