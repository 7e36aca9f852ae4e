import Onboarding.Selection

/-!
# Onboarding — what is toggled on and what the groups have selected

A selection keeps two things: which elements are on, and which one each group has
selected. A move writes both, and they agree on an element as long as only one
group toggles it: then the element is on exactly if that group has selected it.

They come apart when an element is toggled in two groups, or in a group and
without one: what lets go of it turns it off, and the group that still has it
selected does not learn of that.

## Results

* `isOn_toggleIn`, `isOn_flip` — which elements are on after a toggle.
* `Held.apply`, `held_after` — an element that only one group toggles is on
  exactly if the group has selected it.
* `isOn_iff_chosen?` — so the mark of an element and the gates agree.
* `chosen?_of_two_groups` — a selected element that is off.
-/

namespace Onboarding.Selection

/-- The selection after moves in turn, from nothing selected. -/
def after (ms : List SelectionMove) : Selection := ms.foldl apply empty

/-! ## What a toggle changes -/

section Toggles

variable (s : Selection) (group id other : String)

theorem chosen?_toggleIn :
    (s.toggleIn group id).chosen? other = if other = group then some id else s.chosen? other :=
  Table.get?_insert s.groups group other id

/-- A grouped toggle turns the element on and lets go of the one selected before. -/
theorem isOn_toggleIn : (s.toggleIn group id).isOn other =
    (decide (other = id) || s.isOn other && decide (s.chosen? group ≠ some other)) := by
  unfold isOn toggleIn
  rw [NameSet.contains_add]
  cases hBefore : s.chosen? group with
  | none => simp
  | some previous =>
    by_cases hSame : previous = id
    · -- the element is selected again, so nothing is let go
      by_cases hId : other = id
      · simp [hId]
      · simp [hSame, hId, Ne.symm hId]
    · simp only [ne_eq, hSame, not_false_eq_true, if_true, NameSet.contains_erase,
        Option.some.injEq, eq_comm]

theorem isOn_flip :
    (s.flip id).isOn other = if other = id then !s.isOn id else s.isOn other := by
  unfold flip
  cases hOn : s.isOn id with
  | true =>
    show (s.toggled.erase id).contains other = _
    rw [NameSet.contains_erase]
    by_cases hId : other = id <;> simp [hId, isOn]
  | false =>
    show (NameSet.add s.toggled id).contains other = _
    rw [NameSet.contains_add]
    by_cases hId : other = id <;> simp [hId, isOn]

end Toggles

/-! ## Agreement -/

/-- No group but this one has selected the element, and the element is on exactly if it has. -/
structure Held (s : Selection) (group id : String) : Prop where
  isOn_iff : s.isOn id = true ↔ s.chosen? group = some id
  elsewhere : ∀ other, s.chosen? other = some id → other = group

theorem held_empty (group id : String) : empty.Held group id := by
  constructor
  · -- nothing is on, and nothing is selected
    exact ⟨fun hOn => absurd hOn Bool.false_ne_true,
      fun hChosen => absurd hChosen (Option.some_ne_none id).symm⟩
  · intro other hOther
    exact absurd hOther (Option.some_ne_none id).symm

/-- A move that toggles the element, if at all, in its group keeps the agreement. -/
theorem Held.apply {s : Selection} {group id : String} (h : s.Held group id) {m : SelectionMove}
    (hOnly : ∀ g, m = .toggle id g → g = some group) : (s.apply m).Held group id := by
  cases m with
  | reset => exact held_empty group id
  | toggle moved g =>
    by_cases hMoved : moved = id
    · -- the element itself is toggled, in its group
      subst hMoved
      obtain rfl := hOnly g rfl
      constructor
      · show (s.toggleIn group moved).isOn moved = true ↔ (s.toggleIn group moved).chosen? group = _
        rw [isOn_toggleIn, chosen?_toggleIn]
        simp
      · intro other hOther
        have hOther : (s.toggleIn group moved).chosen? other = some moved := hOther
        rw [chosen?_toggleIn] at hOther
        by_cases hGroup : other = group
        · exact hGroup
        · rw [if_neg hGroup] at hOther
          exact h.elsewhere other hOther
    · have hNe : id ≠ moved := Ne.symm hMoved
      cases g with
      | none =>
        refine ⟨?_, h.elsewhere⟩
        show (s.flip moved).isOn id = true ↔ s.chosen? group = some id
        rw [isOn_flip, if_neg hNe]
        exact h.isOn_iff
      | some g =>
        constructor
        · show (s.toggleIn g moved).isOn id = true ↔ (s.toggleIn g moved).chosen? group = some id
          rw [isOn_toggleIn, chosen?_toggleIn]
          by_cases hGroup : group = g
          · -- its group lets go of the element, if it had selected it
            subst hGroup
            have hOn := h.isOn_iff
            simp [hNe, hMoved, hOn]
          · -- another group has not selected it and so cannot let go of it
            have hElsewhere : s.chosen? g ≠ some id := fun hg => hGroup (h.elsewhere g hg).symm
            rw [if_neg hGroup, ← h.isOn_iff]
            simp [hNe, hElsewhere]
        · intro other hOther
          have hOther : (s.toggleIn g moved).chosen? other = some id := hOther
          rw [chosen?_toggleIn] at hOther
          by_cases hGroup : other = g
          · rw [if_pos hGroup, Option.some.injEq] at hOther
            exact absurd hOther hMoved
          · rw [if_neg hGroup] at hOther
            exact h.elsewhere other hOther

/-- After moves that toggle the element only in its group, selection and toggles agree on it. -/
theorem held_after {group id : String} {ms : List SelectionMove}
    (hOnly : ∀ g, .toggle id g ∈ ms → g = some group) : (after ms).Held group id := by
  have hFold (s : Selection) (h : s.Held group id) : (ms.foldl apply s).Held group id := by
    induction ms generalizing s with
    | nil => exact h
    | cons m ms ih =>
      have hStep := h.apply (m := m) fun g hm => hOnly g (hm ▸ List.mem_cons_self)
      exact ih (fun g hg => hOnly g (List.mem_cons_of_mem _ hg)) _ hStep
  exact hFold empty (held_empty group id)

/-- A gate that asks for an element is open exactly if its group has selected it. -/
theorem opens_selected (s : Selection) (group id : String) :
    s.opens ⟨group, some id⟩ = decide (s.chosen? group = some id) := by
  unfold opens
  cases hChosen : s.chosen? group with
  | none => rfl
  | some current => simp [Bool.beq_eq_decide_eq, Option.some.injEq]

/-- **Toggles and groups agree** on every element that is only ever toggled in one group, whatever
is done with all others: it is on exactly if its group has selected it, and then no other group has.
So it is shown as selected exactly if the gates that ask for it are open. -/
theorem isOn_iff_chosen? {group id : String} {ms : List SelectionMove}
    (hOnly : ∀ g, .toggle id g ∈ ms → g = some group) :
    ((after ms).isOn id = true ↔ (after ms).chosen? group = some id) ∧
    (∀ other, (after ms).chosen? other = some id → (after ms).isOn id = true) ∧
    (after ms).opens ⟨group, some id⟩ = (after ms).isOn id := by
  have hHeld := held_after hOnly
  refine ⟨hHeld.isOn_iff, fun other hOther => ?_, ?_⟩
  · obtain rfl := hHeld.elsewhere other hOther
    exact hHeld.isOn_iff.mpr hOther
  · rw [opens_selected, Bool.eq_iff_iff, decide_eq_true_iff]
    exact hHeld.isOn_iff.symm

/-- An element of one group beside one that is toggled in two groups and without any. -/
theorem isOn_iff_chosen?_beside :
    let ms : List SelectionMove := [.toggle "a" (some "g"), .toggle "b" (some "g"),
      .toggle "b" (some "h"), .toggle "b" none, .toggle "a" (some "g")]
    (∀ g, .toggle "a" g ∈ ms → g = some "g") ∧ (after ms).isOn "a" = true ∧
      (after ms).chosen? "g" = some "a" ∧ (after ms).opens ⟨"g", some "a"⟩ = true := by
  intro ms
  have hOnly : ∀ g, SelectionMove.toggle "a" g ∈ ms → g = some "g" := by simp [ms]
  obtain ⟨hIff, -, hOpens⟩ := isOn_iff_chosen? hOnly
  have hChosen : (after ms).chosen? "g" = some "a" := by decide
  exact ⟨hOnly, hIff.mpr hChosen, hChosen, hOpens.trans (hIff.mpr hChosen)⟩

/-- A group lets go of an element that another group still has selected, and the element is off. -/
theorem chosen?_of_two_groups :
    let s := after [.toggle "a" (some "g"), .toggle "a" (some "h"), .toggle "b" (some "h")]
    s.chosen? "g" = some "a" ∧ s.isOn "a" = false := by
  decide

end Onboarding.Selection
