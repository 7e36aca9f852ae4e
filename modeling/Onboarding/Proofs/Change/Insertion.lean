import Onboarding.Change.Merge

/-!
# Onboarding — what an insertion leaves of the siblings

Inserting among siblings keeps all of them in their order. What stands between
them comes from the insertions. An insertion is accepted unless its id stands
among the siblings or belongs to an earlier one that was accepted, and what is
accepted is neither lost nor repeated, wherever it waits in the meantime.

## Results

* `interleaved_insertInto` — the result of inserting is the siblings with
  inserted elements between them.
* `insertInto_perm` — it holds the siblings and the accepted elements, each as
  often as they do.
-/

namespace Onboarding

/-- The second list is the first one, in its order, with elements of `P` between. -/
inductive Interleaved (P : Element → Prop) : List Element → List Element → Prop where
  | nil : Interleaved P [] []
  | keep (e : Element) {xs ys : List Element} :
    Interleaved P xs ys → Interleaved P (e :: xs) (e :: ys)
  | add {e : Element} {xs ys : List Element} :
    P e → Interleaved P xs ys → Interleaved P xs (e :: ys)

namespace Interleaved

variable {P : Element → Prop} {xs ys more : List Element}

/-- Elements in front may be more that were inserted. -/
theorem append_left (hMore : ∀ e ∈ more, P e) (h : Interleaved P xs ys) :
    Interleaved P xs (more ++ ys) := by
  induction more with
  | nil => exact h
  | cons e more ih =>
    exact .add (hMore e List.mem_cons_self) (ih fun x hx => hMore x (List.mem_cons_of_mem _ hx))

theorem append_right (hMore : ∀ e ∈ more, P e) (h : Interleaved P xs ys) :
    Interleaved P xs (ys ++ more) := by
  induction h with
  | nil =>
    -- behind the last sibling there are only added elements
    have hNil := append_left hMore (.nil : Interleaved P [] [])
    rwa [List.append_nil] at hNil
  | keep e _ ih => exact .keep e ih
  | add he _ ih => exact .add he ih

end Interleaved

namespace Slots

variable {P : Element → Prop}

/-- Whether everything that waits has a property. -/
structure All (P : Element → Prop) (slots : Slots) : Prop where
  first : ∀ e ∈ slots.first, P e
  before : ∀ anchor, ∀ e ∈ (slots.before.get? anchor).getD [], P e
  after : ∀ anchor, ∀ e ∈ (slots.after.get? anchor).getD [], P e
  last : ∀ e ∈ slots.last, P e

/-- Nothing waits in empty slots. -/
theorem all_empty : ({} : Slots).All P where
  first _ h := absurd h List.not_mem_nil
  before _ _ h := absurd h List.not_mem_nil
  after _ _ h := absurd h List.not_mem_nil
  last _ h := absurd h List.not_mem_nil

/-- What holds of some elements and of one more holds of all of them. -/
theorem all_append {es : List Element} {e : Element} (h : ∀ x ∈ es, P x) (he : P e) :
    ∀ x ∈ es ++ [e], P x := by
  intro x hx
  rw [List.mem_append, List.mem_singleton] at hx
  rcases hx with hx | rfl
  · exact h x hx
  · exact he

/-- What holds of the queues and of an element holds of the queues that it joins. -/
theorem all_enqueue {t : Table (List Element)} (h : ∀ anchor, ∀ e ∈ (t.get? anchor).getD [], P e)
    (anchor : String) {e : Element} (he : P e) :
    ∀ other, ∀ x ∈ ((enqueue t anchor e).get? other).getD [], P x := by
  intro other
  rw [enqueue, Table.get?_insert]
  by_cases hOther : other = anchor
  · rw [if_pos hOther, Option.getD_some]
    exact all_append (h anchor) he
  · rw [if_neg hOther]
    exact h other

/-- What holds of the slots and of an element holds of the slots where it is placed. -/
theorem all_place {slots : Slots} (h : slots.All P) (siblings : List Element) {e : Element}
    (he : P e) (p : Placement) : (slots.place siblings e p).All P := by
  -- an anchor that is not among the siblings means the end
  have hLast : ({ slots with last := slots.last ++ [e] } : Slots).All P :=
    { h with last := all_append h.last he }
  cases p with
  | first => exact { h with first := all_append h.first he }
  | last => exact hLast
  | before anchor =>
    rw [place]
    split
    · exact { h with before := all_enqueue h.before anchor he }
    · exact hLast
  | after anchor =>
    rw [place]
    split
    · exact { h with after := all_enqueue h.after anchor he }
    · exact hLast

/-- What holds of the insertions holds of the slots that they are placed in. -/
theorem all_fill {insertions : List (Element × Placement)} (hP : ∀ i ∈ insertions, P i.1)
    (siblings : List Element) {slots : Slots} (h : slots.All P) (present : List String) :
    (fill siblings slots present insertions).All P := by
  induction insertions generalizing slots present with
  | nil => exact h
  | cons i rest ih =>
    obtain ⟨e, p⟩ := i
    have he : P e := hP (e, p) List.mem_cons_self
    have hRest : ∀ i ∈ rest, P i.1 := fun i hi => hP i (List.mem_cons_of_mem _ hi)
    rw [fill]
    split
    · -- the id is already there, so the element is skipped
      exact ih hRest h present
    · exact ih hRest (all_place h siblings he p) _

/-- What holds of the queues holds of those that are left when one is taken. -/
theorem all_erase {t : Table (List Element)} (h : ∀ anchor, ∀ e ∈ (t.get? anchor).getD [], P e)
    (anchor : String) : ∀ other, ∀ e ∈ ((t.erase anchor).get? other).getD [], P e := by
  intro other
  rw [Table.get?_erase]
  split
  · intro e he
    simp at he
  · exact h other

/-- Weaving leaves the siblings in their order, with waiting elements between them. -/
theorem interleaved_weave {before after : Table (List Element)}
    (hBefore : ∀ anchor, ∀ e ∈ (before.get? anchor).getD [], P e)
    (hAfter : ∀ anchor, ∀ e ∈ (after.get? anchor).getD [], P e) (siblings : List Element) :
    Interleaved P siblings (weave before after siblings) := by
  induction siblings generalizing before after with
  | nil => exact .nil
  | cons s rest ih =>
    -- what goes next to the first sibling is out of the tables for the others
    have hRest := ih (all_erase hBefore s.id) (all_erase hAfter s.id)
    rw [weave]
    exact .append_left (hBefore s.id) (.keep s (.append_left (hAfter s.id) hRest))

end Slots

/-- The result of inserting is the siblings with inserted elements between them. -/
theorem interleaved_insertInto (siblings : List Element)
    (insertions : List (Element × Placement)) :
    Interleaved (fun e => e ∈ insertions.map Prod.fst) siblings
      (insertInto siblings insertions) := by
  have hAll := Slots.all_fill (P := fun e => e ∈ insertions.map Prod.fst)
    (fun i hi => List.mem_map.mpr ⟨i, hi, rfl⟩) siblings Slots.all_empty (siblings.map Element.id)
  exact .append_right hAll.last
    (.append_left hAll.first (Slots.interleaved_weave hAll.before hAll.after siblings))

/-! ## Accepted insertions -/

namespace Slots

/-- The insertions whose ids are new, where some ids are present already. -/
def accepted (present : List String) : List (Element × Placement) → List (Element × Placement)
  | [] => []
  | (e, p) :: rest =>
    if e.id ∈ present then accepted present rest
    else (e, p) :: accepted (e.id :: present) rest

/-- Of the insertions some are accepted, in their order. -/
theorem accepted_sublist (present : List String) (insertions : List (Element × Placement)) :
    (accepted present insertions).Sublist insertions := by
  induction insertions generalizing present with
  | nil => exact .slnil
  | cons i rest ih =>
    rw [accepted]
    split
    · exact (ih present).cons i
    · exact (ih (i.1.id :: present)).cons_cons i

/-- The elements that wait in a table. -/
def waiting (t : Table (List Element)) : List Element := t.values.flatten

/-- What waits next to an anchor and what waits next to the others. -/
theorem waiting_perm (t : Table (List Element)) (anchor : String) :
    (waiting t).Perm ((t.get? anchor).getD [] ++ waiting (t.erase anchor)) := by
  obtain ⟨entries, hAscending⟩ := t
  show ((entries.map Prod.snd).flatten).Perm ((Entries.get? anchor entries).getD [] ++
    ((entries.filter fun e => e.1 ≠ anchor).map Prod.snd).flatten)
  induction entries with
  | nil => exact .nil
  | cons entry rest ih =>
    obtain ⟨key, es⟩ := entry
    obtain ⟨hHead, hRest⟩ := List.pairwise_cons.mp hAscending
    rw [Entries.get?, List.map_cons, List.flatten_cons]
    by_cases hKey : anchor = key
    · -- no later entry has the same key
      have hOthers : rest.filter (fun e => e.1 ≠ anchor) = rest := by
        rw [List.filter_eq_self]
        intro e he
        simp only [ne_eq, decide_not, Bool.not_eq_true', decide_eq_false_iff_not, hKey]
        exact fun hSame => String.lt_irrefl key (hSame ▸ hHead e he)
      rw [if_pos hKey, List.filter_cons_of_neg (by simp [hKey]), hOthers, Option.getD_some]
    · rw [if_neg hKey, List.filter_cons_of_pos (by simp [Ne.symm hKey]), List.map_cons,
        List.flatten_cons]
      exact ((ih hRest).append_left es).trans (List.perm_append_comm_assoc _ _ _)

/-- Where no anchor has a queue, nothing waits. -/
theorem waiting_empty {t : Table (List Element)} (h : ∀ anchor, t.get? anchor = none) :
    waiting t = [] := by
  have hEmpty : t = ∅ := Table.ext_get? h
  rw [hEmpty]
  rfl

/-- What joins a queue waits, besides what waited before. -/
theorem waiting_enqueue (t : Table (List Element)) (anchor : String) (e : Element) :
    (waiting (enqueue t anchor e)).Perm (e :: waiting t) := by
  have hOthers : (enqueue t anchor e).erase anchor = t.erase anchor := by
    refine Table.ext_get? fun key => ?_
    rw [Table.get?_erase, Table.get?_erase, enqueue, Table.get?_insert]
    split <;> rfl
  have hAnchor : (enqueue t anchor e).get? anchor = some ((t.get? anchor).getD [] ++ [e]) := by
    rw [enqueue, Table.get?_insert, if_pos rfl]
  have hAll := waiting_perm (enqueue t anchor e) anchor
  rw [hAnchor, hOthers, Option.getD_some, List.append_assoc] at hAll
  exact hAll.trans (List.perm_middle.trans ((waiting_perm t anchor).symm.cons e))

/-- Everything that waits. -/
def content (slots : Slots) : List Element :=
  slots.first ++ (waiting slots.before ++ waiting slots.after) ++ slots.last

/-- Elements wait next to siblings only. -/
structure Anchored (siblings : List Element) (slots : Slots) : Prop where
  before : ∀ anchor, anchor ∉ siblings.map Element.id → slots.before.get? anchor = none
  after : ∀ anchor, anchor ∉ siblings.map Element.id → slots.after.get? anchor = none

/-- Empty slots wait for siblings only. -/
theorem anchored_empty (siblings : List Element) : ({} : Slots).Anchored siblings :=
  ⟨fun _ _ => rfl, fun _ _ => rfl⟩

/-- A queue of a sibling leaves those of other ids empty. -/
theorem get?_enqueue_eq_none {t : Table (List Element)} {siblings : List Element}
    (h : ∀ anchor, anchor ∉ siblings.map Element.id → t.get? anchor = none) {anchor : String}
    (hAnchor : (siblings.any fun s => s.id = anchor) = true) (e : Element) :
    ∀ other, other ∉ siblings.map Element.id → (enqueue t anchor e).get? other = none := by
  intro other hOther
  have hNe : other ≠ anchor := by
    rintro rfl
    refine hOther (List.mem_map.mpr ?_)
    simpa using hAnchor
  rw [enqueue, Table.get?_insert, if_neg hNe]
  exact h other hOther

/-- What is placed waits, next to a sibling if at all next to something. -/
theorem place_perm {siblings : List Element} {slots : Slots} (h : slots.Anchored siblings)
    (e : Element) (p : Placement) : (slots.place siblings e p).Anchored siblings ∧
      (slots.place siblings e p).content.Perm (e :: slots.content) := by
  have hLast : ({ slots with last := slots.last ++ [e] } : Slots).content.Perm
      (e :: slots.content) := by
    rw [content, content, ← List.append_assoc]
    exact List.perm_append_singleton e _
  -- an anchor that is no sibling falls through to the last slot, whichever side it was meant for
  cases p with
  | first =>
    refine ⟨⟨h.before, h.after⟩, ?_⟩
    have hFirst : (slots.first ++ [e]).Perm (e :: slots.first) := List.perm_append_singleton e _
    exact (hFirst.append_right _).append_right slots.last
  | last => exact ⟨⟨h.before, h.after⟩, hLast⟩
  | before anchor =>
    rw [place]
    split
    · next hAnchor =>
      refine ⟨⟨get?_enqueue_eq_none h.before hAnchor e, h.after⟩, ?_⟩
      have hMore := (waiting_enqueue slots.before anchor e).append_right (waiting slots.after)
      exact ((hMore.append_left slots.first).trans List.perm_middle).append_right slots.last
    · exact ⟨⟨h.before, h.after⟩, hLast⟩
  | after anchor =>
    rw [place]
    split
    · next hAnchor =>
      refine ⟨⟨h.before, get?_enqueue_eq_none h.after hAnchor e⟩, ?_⟩
      have hMore := ((waiting_enqueue slots.after anchor e).append_left
        (waiting slots.before)).trans List.perm_middle
      exact ((hMore.append_left slots.first).trans List.perm_middle).append_right slots.last
    · exact ⟨⟨h.before, h.after⟩, hLast⟩

/-- What is placed are the accepted insertions, each once, all at ends or at siblings. -/
theorem fill_perm {siblings : List Element} {slots : Slots} (h : slots.Anchored siblings)
    (present : List String) (insertions : List (Element × Placement)) :
    (fill siblings slots present insertions).Anchored siblings ∧
      (fill siblings slots present insertions).content.Perm
        (slots.content ++ (accepted present insertions).map Prod.fst) := by
  induction insertions generalizing slots present with
  | nil =>
    refine ⟨h, ?_⟩
    rw [accepted, List.map_nil, List.append_nil]
    exact .refl _
  | cons i rest ih =>
    obtain ⟨e, p⟩ := i
    rw [fill, accepted]
    -- a refused insertion changes nothing, an accepted one adds its element and takes its id
    split
    · exact ih h present
    · obtain ⟨hPlaced, hContent⟩ := place_perm h e p
      obtain ⟨hAnchored, hRest⟩ := ih hPlaced (e.id :: present)
      exact ⟨hAnchored, hRest.trans ((hContent.append_right _).trans List.perm_middle.symm)⟩

/-- What waits next to siblings gets among them. -/
theorem weave_perm {siblings : List Element} {before after : Table (List Element)}
    (hBefore : ∀ anchor, anchor ∉ siblings.map Element.id → before.get? anchor = none)
    (hAfter : ∀ anchor, anchor ∉ siblings.map Element.id → after.get? anchor = none) :
    (weave before after siblings).Perm (siblings ++ (waiting before ++ waiting after)) := by
  induction siblings generalizing before after with
  | nil =>
    rw [waiting_empty fun anchor => hBefore anchor List.not_mem_nil,
      waiting_empty fun anchor => hAfter anchor List.not_mem_nil]
    exact .nil
  | cons s rest ih =>
    -- without what goes next to the first sibling the rest waits next to the others
    have hErased {t : Table (List Element)}
        (h : ∀ anchor, anchor ∉ (s :: rest).map Element.id → t.get? anchor = none) :
        ∀ anchor, anchor ∉ rest.map Element.id → (t.erase s.id).get? anchor = none := by
      intro anchor hAnchor
      rw [Table.get?_erase]
      split
      · rfl
      · next hNe => exact h anchor (by simpa [hNe] using hAnchor)
    have hRest := ih (hErased hBefore) (hErased hAfter)
    have hFirst := (waiting_perm before s.id).append (waiting_perm after s.id)
    -- every element is counted on both sides
    classical
    rw [weave]
    refine List.perm_iff_count.mpr fun e => ?_
    have hRest := hRest.count_eq e
    have hFirst := hFirst.count_eq e
    simp only [List.count_append, List.count_cons] at hRest hFirst ⊢
    omega

end Slots

/-- The result of inserting holds the siblings and the accepted elements, nothing else, and each as
often as they do. -/
theorem insertInto_perm (siblings : List Element) (insertions : List (Element × Placement)) :
    (insertInto siblings insertions).Perm
      (siblings ++ (Slots.accepted (siblings.map Element.id) insertions).map Prod.fst) := by
  obtain ⟨hAnchored, hContent⟩ := Slots.fill_perm (Slots.anchored_empty siblings)
    (siblings.map Element.id) insertions
  have hWoven := Slots.weave_perm hAnchored.before hAnchored.after
  rw [insertInto]
  -- every element is counted on both sides
  classical
  refine List.perm_iff_count.mpr fun e => ?_
  have hContent := hContent.count_eq e
  have hWoven := hWoven.count_eq e
  have hNone : ({} : Slots).content = [] := rfl
  rw [hNone, List.nil_append] at hContent
  simp only [Slots.content, List.count_append] at hContent hWoven ⊢
  omega

end Onboarding
