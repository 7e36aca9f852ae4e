import Onboarding.Proofs.Change.Insertion

/-!
# Onboarding — how inserted elements are arranged

An accepted insertion waits in the slot of its placement, behind those that came
before it. What waits next to an anchor gets there at the first sibling with that
id, which leaves nothing for later ones. So the result of inserting can be read
off the accepted insertions: those that go first, every sibling with what goes
before and after it, and the others at the end.

## Results

* `Slots.heldAt_fill` — what waits in each slot.
* `Slots.weave_eq` — the siblings with what waits next to them.
* `insertInto_eq` — the result of inserting, read off what is accepted.
* `insertInto_insertions` — the same for changes, which lose and repeat nothing.
-/

namespace Onboarding

/-- The placement among siblings: an anchor that is none of them means the end. -/
def Placement.among (siblings : List Element) : Placement → Placement
  | first => first
  | before anchor => if anchor ∈ siblings.map Element.id then before anchor else last
  | after anchor => if anchor ∈ siblings.map Element.id then after anchor else last
  | last => last

namespace Slots

/-- The inserted elements with a placement among siblings, in the order of their insertions. -/
def placed (siblings : List Element) (insertions : List (Element × Placement)) (p : Placement) :
    List Element :=
  (insertions.filter fun i => i.2.among siblings = p).map Prod.fst

/-- A sibling between the elements that go before it and after it. They do so at the first
occurrence of its id. -/
def flanked (placed : Placement → List Element) (earlier : List String) (s : Element) :
    List Element :=
  if s.id ∈ earlier then [s] else placed (.before s.id) ++ s :: placed (.after s.id)

/-- What waits for a placement. -/
def heldAt (slots : Slots) : Placement → List Element
  | .first => slots.first
  | .before anchor => (slots.before.get? anchor).getD []
  | .after anchor => (slots.after.get? anchor).getD []
  | .last => slots.last

/-! ## Filling -/

theorem getD_get?_enqueue (t : Table (List Element)) (anchor other : String) (e : Element) :
    ((enqueue t anchor e).get? other).getD [] =
      (t.get? other).getD [] ++ if anchor = other then [e] else [] := by
  rw [enqueue, Table.get?_insert]
  by_cases h : other = anchor
  · rw [if_pos h, if_pos h.symm, h, Option.getD_some]
  · rw [if_neg h, if_neg (Ne.symm h), List.append_nil]

theorem any_iff_mem_ids {siblings : List Element} {anchor : String} :
    (siblings.any fun s => s.id = anchor) = true ↔ anchor ∈ siblings.map Element.id := by
  simp only [List.any_eq_true, decide_eq_true_eq, List.mem_map]

/-- An element at the end waits for no other placement. -/
theorem heldAt_last (slots : Slots) (e : Element) (q : Placement) :
    heldAt { slots with last := slots.last ++ [e] } q =
      slots.heldAt q ++ if Placement.last = q then [e] else [] := by
  cases q <;> simp [heldAt]

/-- What is placed waits behind the others with its placement among the siblings. -/
theorem heldAt_place (slots : Slots) (siblings : List Element) (e : Element) (p q : Placement) :
    (slots.place siblings e p).heldAt q =
      slots.heldAt q ++ if p.among siblings = q then [e] else [] := by
  -- placing looks for the anchor among the siblings, as `Placement.among` does
  cases p with
  | first => cases q <;> simp [place, heldAt, Placement.among]
  | last => exact heldAt_last slots e q
  | before anchor =>
    rw [place, Placement.among]
    split
    · next hAny =>
      rw [if_pos (any_iff_mem_ids.mp hAny)]
      cases q with
      | before other => simpa [heldAt] using getD_get?_enqueue slots.before anchor other e
      | _ => simp [heldAt]
    · next hNone =>
      rw [if_neg (mt any_iff_mem_ids.mpr hNone)]
      exact heldAt_last slots e q
  | after anchor =>
    rw [place, Placement.among]
    split
    · next hAny =>
      rw [if_pos (any_iff_mem_ids.mp hAny)]
      cases q with
      | after other => simpa [heldAt] using getD_get?_enqueue slots.after anchor other e
      | _ => simp [heldAt]
    · next hNone =>
      rw [if_neg (mt any_iff_mem_ids.mpr hNone)]
      exact heldAt_last slots e q

/-- What is accepted waits for its placement, in the order of the insertions. -/
theorem heldAt_fill (siblings : List Element) (slots : Slots) (present : List String)
    (insertions : List (Element × Placement)) (q : Placement) :
    (fill siblings slots present insertions).heldAt q =
      slots.heldAt q ++ placed siblings (accepted present insertions) q := by
  induction insertions generalizing slots present with
  | nil => exact (List.append_nil _).symm
  | cons i rest ih =>
    obtain ⟨e, p⟩ := i
    rw [accepted, fill]
    split
    · exact ih slots present
    · -- the first one is placed before the others
      rw [ih, heldAt_place, List.append_assoc, placed, placed, List.filter_cons]
      by_cases hPlaced : p.among siblings = q <;> simp [hPlaced]

/-! ## Weaving -/

/-- The siblings with what waits next to them, where nothing is left for some earlier ids. -/
theorem weave_eq {placed : Placement → List Element} {before after : Table (List Element)}
    {earlier : List String}
    (hBefore : ∀ id, (before.get? id).getD [] = if id ∈ earlier then [] else placed (.before id))
    (hAfter : ∀ id, (after.get? id).getD [] = if id ∈ earlier then [] else placed (.after id))
    (siblings : List Element) : weave before after siblings =
      (siblings.mapIdx fun i s =>
        flanked placed (earlier ++ (siblings.take i).map Element.id) s).flatten := by
  induction siblings generalizing before after earlier with
  | nil => rfl
  | cons s rest ih =>
    -- behind the first sibling nothing is left for its id either
    have hLeft {t : Table (List Element)} {next : String → List Element}
        (h : ∀ id, (t.get? id).getD [] = if id ∈ earlier then [] else next id) (id : String) :
        ((t.erase s.id).get? id).getD [] = if id ∈ earlier ++ [s.id] then [] else next id := by
      rw [Table.get?_erase]
      by_cases hSame : id = s.id
      · rw [if_pos hSame, if_pos (by simp [hSame]), Option.getD_none]
      · rw [if_neg hSame, h]
        simp [hSame]
    rw [weave, ih (hLeft hBefore) (hLeft hAfter), hBefore, hAfter, List.mapIdx_cons,
      List.flatten_cons, flanked]
    simp only [List.take_zero, List.map_nil, List.append_nil, List.take_succ_cons, List.map_cons,
      List.append_assoc, List.singleton_append]
    -- the first sibling stands alone if its id is an earlier one
    split <;> simp

end Slots

/-- The result of inserting: what goes first, the siblings with what goes next to each at the first
occurrence of its id, and what goes to the end. -/
theorem insertInto_eq (siblings : List Element) (insertions : List (Element × Placement)) :
    let placed := Slots.placed siblings (Slots.accepted (siblings.map Element.id) insertions)
    insertInto siblings insertions = placed .first ++
      (siblings.mapIdx fun i s =>
        Slots.flanked placed ((siblings.take i).map Element.id) s).flatten ++ placed .last := by
  intro placed
  let slots := Slots.fill siblings {} (siblings.map Element.id) insertions
  have hHeld (q : Placement) : slots.heldAt q = placed q := by
    -- before the insertions nothing waits
    have hEmpty : ({} : Slots).heldAt q = [] := by cases q <;> rfl
    rw [Slots.heldAt_fill, hEmpty, List.nil_append]
  have hFirst : slots.first = placed .first := hHeld .first
  have hLast : slots.last = placed .last := hHeld .last
  have hWoven := Slots.weave_eq
    (fun id => (hHeld (.before id)).trans (if_neg List.not_mem_nil).symm)
    (fun id => (hHeld (.after id)).trans (if_neg List.not_mem_nil).symm) siblings
  show slots.first ++ Slots.weave slots.before slots.after siblings ++ slots.last = _
  rw [hFirst, hWoven, hLast]
  rfl

/-! ## What is accepted -/

namespace Slots

/-- An insertion is accepted unless its id is present or accepted before. -/
theorem accepted_concat (present : List String) (front : List (Element × Placement))
    (i : Element × Placement) : accepted present (front ++ [i]) = accepted present front ++
      if i.1.id ∈ present ++ (accepted present front).map (fun j => j.1.id) then [] else [i] := by
  induction front generalizing present with
  | nil =>
    rw [List.nil_append, accepted, accepted, List.map_nil, List.append_nil, List.nil_append]
    rfl
  | cons j front ih =>
    rw [List.cons_append, accepted, accepted]
    split
    · exact ih present
    · -- the first one's id is accepted before, and present for the others
      rw [ih, List.map_cons]
      simp only [List.perm_middle.mem_iff]
      rfl

/-- What is accepted has ids of its own. -/
theorem nodup_accepted (present : List String) (insertions : List (Element × Placement)) :
    ((accepted present insertions).map fun i => i.1.id).Nodup ∧
      ∀ i ∈ accepted present insertions, i.1.id ∉ present := by
  induction insertions generalizing present with
  | nil => exact ⟨List.nodup_nil, fun _ hi => absurd hi List.not_mem_nil⟩
  | cons i rest ih =>
    rw [accepted]
    split
    · exact ih present
    · next hNew =>
      -- the id taken by the first is among those present for the rest
      obtain ⟨hDistinct, hRest⟩ := ih (i.1.id :: present)
      rw [List.map_cons, List.nodup_cons, List.forall_mem_cons]
      refine ⟨⟨fun hMem => ?_, hDistinct⟩, hNew, fun j hj hPresent => ?_⟩
      · obtain ⟨j, hj, hSame⟩ := List.mem_map.mp hMem
        exact hRest j hj (hSame ▸ List.mem_cons_self)
      · exact hRest j hj (List.mem_cons_of_mem _ hPresent)

end Slots

/-- Inserting keeps ids distinct, whatever is inserted. -/
theorem nodup_ids_insertInto {siblings : List Element} (h : (siblings.map Element.id).Nodup)
    (insertions : List (Element × Placement)) :
    ((insertInto siblings insertions).map Element.id).Nodup := by
  obtain ⟨hDistinct, hNew⟩ := Slots.nodup_accepted (siblings.map Element.id) insertions
  have hIds := (insertInto_perm siblings insertions).map Element.id
  rw [hIds.nodup_iff, List.map_append, List.map_map, List.nodup_append]
  refine ⟨h, hDistinct, fun old hOld new hAccepted hSame => ?_⟩
  obtain ⟨i, hi, rfl⟩ := List.mem_map.mp hAccepted
  subst hSame
  exact hNew i hi hOld

open Change (insertions)

/-- **How inserted elements are arranged.** Take any siblings and any changes. Of the elements that
the changes insert those are accepted whose ids are neither among the siblings nor accepted before.
Inserting gives the accepted elements that go first, then every sibling between the accepted
elements placed before and after it, which stand at the first occurrence of its id, and then the
accepted elements that go to the end or next to what is no sibling. In each of these places they
stand in the order of the changes. So the result holds the siblings and the accepted elements, each
as often as they do, and has distinct ids if the siblings have. -/
theorem insertInto_insertions (siblings : List Element) (changes : List Change) :
    let accept := Slots.accepted (siblings.map Element.id)
    let accepted := accept (insertions changes)
    let result := insertInto siblings (insertions changes)
    (accept [] = [] ∧ ∀ front i, accept (front ++ [i]) = accept front ++
      if i.1.id ∈ siblings.map Element.id ++ (accept front).map (fun j => j.1.id) then []
      else [i]) ∧
    let placed := Slots.placed siblings accepted
    result = placed .first ++
      (siblings.mapIdx fun i s =>
        Slots.flanked placed ((siblings.take i).map Element.id) s).flatten ++ placed .last ∧
    result.Perm (siblings ++ accepted.map Prod.fst) ∧
    ((siblings.map Element.id).Nodup → (result.map Element.id).Nodup) := by
  intro accept accepted result
  refine ⟨⟨rfl, Slots.accepted_concat _⟩, insertInto_eq siblings _, insertInto_perm siblings _, ?_⟩
  exact fun h => nodup_ids_insertInto h _

/-- Two elements at the same anchor, one whose id has been accepted, one whose id is a sibling's,
one next to an element of the same batch, and one whose placement its change says. -/
theorem insertInto_insertions_mixed :
    let siblings : List Element := [.plain "a" .text, .plain "b" .text]
    let changes : List Change := [.insert none (.plain "x" .icon) (.after "a"),
      .insert none (.plain "y" .icon) (.after "a"), .insert none (.plain "x" .image) .first,
      .insert none (.plain "b" .image) .first, .insert none (.plain "z" .icon) (.before "x"),
      { insertion := some (.bare (.plain "w" .icon)), placement := some .first }]
    let result := insertInto siblings (insertions changes)
    (siblings.map Element.id).Nodup ∧ (result.map Element.id).Nodup ∧
      result.map Element.id = ["w", "a", "x", "y", "b", "z"] := by
  intro siblings changes result
  have hSiblings : (siblings.map Element.id).Nodup := by decide
  obtain ⟨-, -, -, hDistinct⟩ := insertInto_insertions siblings changes
  exact ⟨hSiblings, hDistinct hSiblings, by decide⟩

/-- Where an id is repeated, elements go next to its first occurrence only. -/
example :
    let siblings : List Element := [.plain "a" .text, .plain "b" .text, .plain "a" .image]
    (insertInto siblings [(.plain "x" .icon, .after "a"), (.plain "y" .icon, .before "a")]).map
      Element.id = ["y", "a", "x", "b", "a"] := by
  decide

end Onboarding
