import Onboarding.Proofs.Change.Validity

/-!
# Onboarding — merging the same changes again

A merge settles an element: merging the same changes into it again leaves it as
it is. An edit writes what it wrote before, replaced children are replaced by
themselves, and of what is inserted every id stands among the siblings already.
What the changes bring is settled as well if none of them names an id inside.

## Results

* `insertInto_insertInto` — inserting again inserts nothing.
* `Rewritten.eq_of_again` — the edits of an element write the same twice.
* `settled_mergeAll` — the elements of a merged forest are settled.
* `merge_merge` — merging the same changes again changes nothing.
-/

namespace Onboarding

/-! ## Inserting again -/

namespace Slots

/-- An insertion is skipped only if its id is present or accepted before. -/
theorem mem_present_or_accepted (present : List String) {insertions : List (Element × Placement)}
    {i : Element × Placement} (hi : i ∈ insertions) :
    i.1.id ∈ present ∨ i.1.id ∈ (accepted present insertions).map fun j => j.1.id := by
  induction insertions generalizing present with
  | nil => exact absurd hi List.not_mem_nil
  | cons j rest ih =>
    rw [accepted]
    split
    · next hPresent =>
      -- the first one is skipped
      rcases List.mem_cons.mp hi with rfl | hi
      · exact .inl hPresent
      · exact ih present hi
    · rw [List.map_cons, List.mem_cons]
      rcases List.mem_cons.mp hi with rfl | hi
      · exact .inr (.inl rfl)
      · -- what is accepted first is present for the others
        rcases ih (j.1.id :: present) hi with hPresent | hAccepted
        · rcases List.mem_cons.mp hPresent with hSame | hPresent
          · exact .inr (.inl hSame)
          · exact .inl hPresent
        · exact .inr (.inr hAccepted)

/-- Insertions of elements that are there already place nothing. -/
theorem fill_of_present (siblings : List Element) (slots : Slots) {present : List String}
    {insertions : List (Element × Placement)} (h : ∀ i ∈ insertions, i.1.id ∈ present) :
    fill siblings slots present insertions = slots := by
  induction insertions with
  | nil => rfl
  | cons i rest ih =>
    rw [List.forall_mem_cons] at h
    rw [fill, if_pos h.1]
    exact ih h.2

theorem weave_empty (siblings : List Element) : weave ∅ ∅ siblings = siblings := by
  induction siblings with
  | nil => rfl
  | cons s rest ih =>
    show s :: weave ∅ ∅ rest = s :: rest
    rw [ih]

end Slots

/-- Nothing is inserted whose ids all stand among the siblings. -/
theorem insertInto_of_present {siblings : List Element} {insertions : List (Element × Placement)}
    (h : ∀ i ∈ insertions, i.1.id ∈ siblings.map Element.id) :
    insertInto siblings insertions = siblings := by
  rw [insertInto, Slots.fill_of_present siblings {} h]
  show [] ++ Slots.weave ∅ ∅ siblings ++ [] = siblings
  rw [Slots.weave_empty, List.nil_append, List.append_nil]

/-- Inserting again inserts nothing, since every id is there by then. -/
theorem insertInto_insertInto (siblings : List Element) (insertions : List (Element × Placement)) :
    insertInto (insertInto siblings insertions) insertions = insertInto siblings insertions := by
  refine insertInto_of_present fun i hi => ?_
  -- an id was skipped because it stood there, or its element was accepted
  have hIds := (insertInto_perm siblings insertions).map Element.id
  rw [hIds.mem_iff, List.map_append, List.map_map, List.mem_append]
  exact Slots.mem_present_or_accepted _ hi

open Element (ids documents ids_node)

namespace Change

variable {changes : List Change}

/-! ## Editing again -/

/-- The edits of an element write the same into what they have written. -/
theorem Rewritten.eq_of_again {old new newer : Attributes} (h : Rewritten changes old new)
    (hAgain : Rewritten changes new newer) : newer = new := by
  -- what is given for an attribute hides what was there, also if that was given before
  have hOr {α : Type} (x y : Option α) : x.or (x.or y) = x.or y := by cases x <;> rfl
  have hStyle : newer.style = new.style := Table.ext_get? fun key => by
    rw [hAgain.style, h.id, h.style, hOr]
  have hProps : newer.props = new.props := Table.ext_get? fun key => by
    rw [hAgain.props, h.id, h.props, hOr]
  have hAction : newer.action = new.action := by rw [hAgain.action, h.id, h.action, hOr]
  have hActions : newer.actions = new.actions := by rw [hAgain.actions, h.id, h.actions, hOr]
  have hGate : newer.gate = new.gate := by rw [hAgain.gate, h.id, h.gate, hOr]
  have hShowRule : newer.showRule = new.showRule := by
    rw [hAgain.showRule, h.id, h.showRule, hOr]
  have hEntrance : newer.entrance = new.entrance := by
    rw [hAgain.entrance, h.id, h.entrance, hOr]
  have hTextAnimation : newer.textAnimation = new.textAnimation := by
    rw [hAgain.textAnimation, h.id, h.textAnimation, hOr]
  have hInteractive : newer.interactive = new.interactive := by
    rw [hAgain.interactive, h.id, h.interactive, hOr]
  cases newer
  cases new
  rw [Attributes.mk.injEq]
  exact ⟨hAgain.id, hAgain.kind, hStyle, hProps, hAgain.position, hAction, hActions, hGate,
    hShowRule, hEntrance, hTextAnimation, hInteractive⟩

/-! ## Settled elements -/

/-- Whether a merge leaves the element as it is. -/
def Settled (changes : List Change) (e : Element) : Prop := mergeNode changes e = some e

/-- Settled elements stay as they are when they are merged. -/
theorem mergeAll_of_settled {es : List Element} (h : ∀ e ∈ es, Settled changes e) :
    mergeAll changes es = es := by
  induction es with
  | nil => rfl
  | cons e rest ih =>
    rw [List.forall_mem_cons] at h
    have hFirst : mergeNode changes e = some e := h.1
    rw [mergeAll_cons, hFirst, ih h.2]
    rfl

mutual

/-- An element is settled if no change names an id inside. -/
theorem settled_of_untargeted : ∀ e : Element, (∀ id ∈ ids [e], targeting id changes = []) →
    Settled changes e
  | .node a cs, h => by
    rw [ids_node, List.forall_mem_cons] at h
    obtain ⟨hOwn, hInside⟩ := h
    have hChildren := mergeAll_of_settled (all_settled_of_untargeted cs hInside)
    -- nothing is removed, edited, given or inserted
    rw [Settled, mergeNode, hOwn, hChildren]
    split
    · next hRemoved => cases hRemoved
    · split
      · have hNone : insertInto cs (insertions []) = cs :=
          insertInto_of_present fun i hi => absurd hi List.not_mem_nil
        exact congrArg (fun cs => some (Element.node a cs)) hNone
      · rfl

/-- Elements that no change names, inside included, are settled. -/
theorem all_settled_of_untargeted : ∀ es : List Element,
    (∀ id ∈ ids es, targeting id changes = []) → ∀ e ∈ es, Settled changes e
  | [], _ => fun _ he => absurd he List.not_mem_nil
  | e :: rest, h => by
    rw [Element.ids_cons, List.forall_mem_append] at h
    exact List.forall_mem_cons.mpr
      ⟨settled_of_untargeted e h.1, all_settled_of_untargeted rest h.2⟩

end

/-- No change names an id that stands in what the changes bring: in an element that one of them
inserts, or in children that one of them gives. -/
def LeavesBrought (changes : List Change) : Prop :=
  ∀ c ∈ changes, ∀ id, c.id = some id → id ∉ ids (brought changes)

/-- If the changes name nothing that they bring, what they bring is settled. -/
theorem LeavesBrought.settled (h : LeavesBrought changes) {e : Element} (he : e ∈ brought changes) :
    Settled changes e := by
  refine settled_of_untargeted e fun id hId => ?_
  rw [targeting, List.filter_eq_nil_iff]
  intro c hc hNamed
  have hMem : id ∈ ids (brought changes) := by
    obtain ⟨x, hx, rfl⟩ := List.mem_map.mp hId
    rw [documents, documents, List.append_nil] at hx
    exact List.mem_map.mpr ⟨x, Element.mem_documents.mpr ⟨e, he, hx⟩, rfl⟩
  exact h c hc id (of_decide_eq_true hNamed) hMem

theorem LeavesBrought.settled_insertInto (h : LeavesBrought changes) {siblings : List Element}
    (hSiblings : ∀ e ∈ siblings, Settled changes e) {own : List Change} (hOwn : own ⊆ changes) :
    ∀ e ∈ insertInto siblings (insertions own), Settled changes e := by
  intro e he
  rcases List.mem_append.mp ((insertInto_perm siblings (insertions own)).mem_iff.mp he) with he | he
  · exact hSiblings e he
  · have hInserted := ((Slots.accepted_sublist _ (insertions own)).map Prod.fst).subset he
    rw [insertions_map_fst] at hInserted
    exact h.settled (brought_subset hOwn (mem_brought_of_inserted hInserted))

/-- An element with its edits is settled if its children are: those of a container by what is given
and inserted there, and the others by a merge. -/
theorem settled_edited {a : Attributes} {es : List Element}
    (hRemoves : (targeting a.id changes).any Change.remove = false)
    (hContainer : a.kind.holdsChildren = true →
      insertInto ((replacement (targeting a.id changes)).getD (mergeAll changes es))
        (insertions (targeting a.id changes)) = es)
    (hLeaf : a.kind.holdsChildren = false → mergeAll changes es = es) :
    Settled changes (.node ((targeting a.id changes).foldl (fun a c => c.edit a) a) es) := by
  have hEdited := rewritten_foldl_edit changes a
  generalize (targeting a.id changes).foldl (fun a c => c.edit a) a = new at hEdited ⊢
  have hAgain := hEdited.eq_of_again (rewritten_foldl_edit changes new)
  -- the element is asked the same changes again, as it keeps its id
  rw [Settled, mergeNode]
  dsimp only
  rw [hAgain, hEdited.id, hEdited.kind, hRemoves]
  cases hKind : a.kind.holdsChildren with
  | false => rw [hLeaf hKind]; rfl
  | true =>
    have hChildren := hContainer hKind
    cases hGiven : replacement (targeting a.id changes) with
    | none =>
      rw [hGiven, Option.getD_none] at hChildren
      exact congrArg (fun es => some (Element.node new es)) hChildren
    | some given =>
      rw [hGiven, Option.getD_some] at hChildren
      exact congrArg (fun es => some (Element.node new es)) hChildren

mutual

/-- What a merge makes of an element is settled. -/
theorem settled_mergeNode (h : LeavesBrought changes) :
    ∀ e : Element, ∀ merged ∈ (mergeNode changes e).toList, Settled changes merged
  | .node a cs => by
    -- the children are settled before the element takes anything in
    have hInside := settled_mergeAll h cs
    intro merged hMerged
    rw [mergeNode] at hMerged
    split at hMerged
    · exact absurd hMerged List.not_mem_nil
    · next hRemoves =>
      rw [Bool.not_eq_true] at hRemoves
      split at hMerged
      · next hContainer =>
        rw [Option.toList_some, List.mem_singleton] at hMerged
        subst hMerged
        refine settled_edited hRemoves (fun _ => ?_) fun hLeaf => ?_
        · cases replacement (targeting a.id changes) with
          | some given => rfl  -- the same children are given and inserted into again
          | none =>
            -- the children were merged before and inserted into before
            have hChildren := h.settled_insertInto hInside (targeting_subset a.id)
            rw [Option.getD_none, mergeAll_of_settled hChildren]
            exact insertInto_insertInto _ _
        · rw [hContainer] at hLeaf
          cases hLeaf
      · next hLeaf =>
        rw [Option.toList_some, List.mem_singleton] at hMerged
        subst hMerged
        exact settled_edited hRemoves (fun hContainer => absurd hContainer hLeaf)
          fun _ => mergeAll_of_settled hInside

/-- The elements of a merged forest are settled. -/
theorem settled_mergeAll (h : LeavesBrought changes) :
    ∀ es : List Element, ∀ e ∈ mergeAll changes es, Settled changes e
  | [] => fun _ he => absurd he List.not_mem_nil
  | e :: rest => by
    rw [mergeAll_cons, List.forall_mem_append]
    exact ⟨settled_mergeNode h e, settled_mergeAll h rest⟩

end

/-- **Merging again changes nothing.** Take any forest and any changes of which none names an id
that stands in an element that they insert, or in children that they give. Then merging these
changes into the merged forest gives the merged forest. -/
theorem merge_merge (roots : List Element) {changes : List Change} (h : LeavesBrought changes) :
    merge (merge roots changes) changes = merge roots changes := by
  have hUntargeted : untargeted changes ⊆ changes := List.filter_sublist.subset
  have hSettled := h.settled_insertInto (settled_mergeAll h roots) hUntargeted
  rw [merge, merge, mergeAll_of_settled hSettled]
  exact insertInto_insertInto _ _

/-- Edits, replaced children that are inserted into, an insertion that is skipped, one next to an
element that is removed, and one among the roots. -/
theorem merge_merge_mixed :
    let roots : List Element := [.node { id := "r", kind := .vstack }
      [.plain "a" .text, .node { id := "b", kind := .hstack } [.plain "c" .icon]]]
    let changes : List Change := [.removal "a", .insert (some "r") (.plain "x" .text) (.before "a"),
      (target "r").setProp "title" (.string "New"), (target "b").setChildren [.plain "y" .image],
      .insert (some "b") (.node { id := "z", kind := .zstack } [.plain "w" .text]) (.after "y"),
      .insert (some "r") (.plain "x" .icon) .first, .insert none (.plain "u" .divider) .first]
    LeavesBrought changes ∧ ids (merge roots changes) = ["u", "r", "b", "y", "z", "w", "x"] ∧
      merge (merge roots changes) changes = merge roots changes := by
  intro roots changes
  have hLeaves : LeavesBrought changes := by
    have hNone : ∀ c ∈ changes, ∀ id ∈ c.id, id ∉ ids (brought changes) := by decide
    exact hNone
  have hIds : ids (merge roots changes) = ["u", "r", "b", "y", "z", "w", "x"] := by decide
  exact ⟨hLeaves, hIds, merge_merge roots hLeaves⟩

/-- Without the hypothesis this is not so: what is inserted by one change into what another one has
inserted gets there only the next time. -/
example :
    let changes : List Change := [.insert none (.plain "x" .vstack) .last,
      .insert (some "x") (.plain "y" .text) .last]
    ids (merge [] changes) = ["x"] ∧ ids (merge (merge [] changes) changes) = ["x", "y"] := by
  decide

end Change

end Onboarding
