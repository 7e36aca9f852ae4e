import Mathlib.Algebra.Ring.Parity
import Mathlib.Data.List.DropRight
import Mathlib.Data.List.Induction
import Onboarding.Proofs.Selection.Agreement

/-!
# Onboarding — a selection as a function of its history

A reset forgets everything, so only the moves since the last one count. A group
has selected the element that was toggled in it last, whatever else was done. If
every element is toggled in one group only, or always without one, this says
which elements are on, too: of a group the one toggled last, and of the others
those that were toggled an odd number of times.

## Results

* `chosen?_after` — a group has selected what was toggled in it last.
* `isOn_after_ungrouped` — what is only toggled without a group is on after an
  odd number of toggles.
* `lastIn?_outside`, `timesToggled_outside` — the toggles in one group count
  neither for another group nor for an element outside.
* `closedForm_after` — all of a selection, read off the moves.
-/

namespace Onboarding.Selection

/-! ## Histories -/

/-- The moves since the last reset. -/
def sinceReset (ms : List SelectionMove) : List SelectionMove := ms.rtakeWhile (· ≠ .reset)

/-- The element that a move toggles in a group. -/
def toggledIn? (group : String) : SelectionMove → Option String
  | .toggle id g => if g = some group then some id else none
  | .reset => none

/-- The element toggled last in a group since the last reset. -/
def lastIn? (group : String) (ms : List SelectionMove) : Option String :=
  ((sinceReset ms).filterMap (toggledIn? group)).getLast?

/-- Whether a move toggles an element, in a group or without one. -/
def toggles (id : String) : SelectionMove → Bool
  | .toggle moved _ => moved = id
  | .reset => false

/-- How often an element was toggled since the last reset. -/
def timesToggled (id : String) (ms : List SelectionMove) : Nat :=
  (sinceReset ms).countP (toggles id)

/-- The moves without the toggles in a group. -/
def outside (group : String) (ms : List SelectionMove) : List SelectionMove :=
  ms.filter fun m => (toggledIn? group m).isNone

section Histories

variable (ms : List SelectionMove)

/-- Nothing has happened since a reset that comes last. -/
theorem sinceReset_concat_reset : sinceReset (ms ++ [.reset]) = [] :=
  List.rtakeWhile_concat_neg _ _ _ (by simp)

/-- A toggle that comes last has happened since. -/
theorem sinceReset_concat_toggle (id : String) (g : Option String) :
    sinceReset (ms ++ [.toggle id g]) = sinceReset ms ++ [.toggle id g] :=
  List.rtakeWhile_concat_pos _ _ _ (by simp)

/-- What has happened since a reset is part of the history. -/
theorem sinceReset_subset : sinceReset ms ⊆ ms := (List.rtakeWhile_suffix _ ms).subset

/-- Behind a reset nothing was toggled in any group. -/
theorem lastIn?_concat_reset (group : String) : lastIn? group (ms ++ [.reset]) = none := by
  rw [lastIn?, sinceReset_concat_reset]
  rfl

/-- A toggle in the group is the last one in it, any other leaves it as it was. -/
theorem lastIn?_concat_toggle (group id : String) (g : Option String) :
    lastIn? group (ms ++ [.toggle id g]) =
      if g = some group then some id else lastIn? group ms := by
  rw [lastIn?, sinceReset_concat_toggle, List.filterMap_append, lastIn?]
  by_cases hGroup : g = some group <;> simp [toggledIn?, hGroup]

/-- Behind a reset nothing was toggled. -/
theorem timesToggled_concat_reset (id : String) : timesToggled id (ms ++ [.reset]) = 0 := by
  rw [timesToggled, sinceReset_concat_reset]
  rfl

/-- A toggle counts for its own element. -/
theorem timesToggled_concat_toggle (id moved : String) (g : Option String) :
    timesToggled id (ms ++ [.toggle moved g]) =
      timesToggled id ms + if moved = id then 1 else 0 := by
  rw [timesToggled, sinceReset_concat_toggle, List.countP_append, List.countP_singleton,
    timesToggled]
  simp [toggles]

/-- What was toggled last in a group was toggled there. -/
theorem mem_of_lastIn? {ms : List SelectionMove} {group id : String}
    (h : lastIn? group ms = some id) : .toggle id (some group) ∈ ms := by
  obtain ⟨m, hm, hToggled⟩ := List.mem_filterMap.mp (List.mem_of_getLast? h)
  have hMem := sinceReset_subset ms hm
  cases m with
  | reset => cases hToggled
  | toggle moved g =>
    rw [toggledIn?] at hToggled
    split at hToggled
    · next hGroup =>
      rw [Option.some.injEq] at hToggled
      rwa [← hToggled, ← hGroup]
    · cases hToggled

/-- A reset is outside of every group. -/
theorem outside_concat_reset (group : String) :
    outside group (ms ++ [.reset]) = outside group ms ++ [.reset] := by
  rw [outside, List.filter_append]
  rfl

/-- A toggle is outside of all groups but its own. -/
theorem outside_concat_toggle (group id : String) (g : Option String) :
    outside group (ms ++ [.toggle id g]) =
      if g = some group then outside group ms else outside group ms ++ [.toggle id g] := by
  rw [outside, List.filter_append, outside]
  by_cases hGroup : g = some group <;> simp [toggledIn?, hGroup]

/-- A reset stays where it is when the toggles in a group are left out. -/
theorem sinceReset_outside (group : String) :
    sinceReset (outside group ms) = outside group (sinceReset ms) := by
  induction ms using List.reverseRecOn with
  | nil => rfl
  | append_singleton ms m ih =>
    cases m with
    | reset =>
      rw [outside_concat_reset, sinceReset_concat_reset, sinceReset_concat_reset]
      rfl
    | toggle id g =>
      rw [outside_concat_toggle, sinceReset_concat_toggle, outside_concat_toggle]
      by_cases hGroup : g = some group
      · -- the toggle is left out on both sides
        rw [if_pos hGroup, if_pos hGroup, ih]
      · rw [if_neg hGroup, if_neg hGroup, sinceReset_concat_toggle, ih]

/-- The toggles in one group do not count for another one. -/
theorem lastIn?_outside {group other : String} (hOther : other ≠ group) :
    lastIn? other (outside group ms) = lastIn? other ms := by
  rw [lastIn?, sinceReset_outside, outside, List.filterMap_filter, lastIn?]
  refine congrArg (fun f => (List.filterMap f (sinceReset ms)).getLast?) (funext fun m => ?_)
  cases m with
  | reset => rfl
  | toggle id g =>
    by_cases hGroup : g = some group
    · simp [toggledIn?, hGroup, Ne.symm hOther]
    · simp [toggledIn?, hGroup]

/-- The toggles in a group do not count for an element that is never toggled there. -/
theorem timesToggled_outside {ms : List SelectionMove} {group id : String}
    (hNever : .toggle id (some group) ∉ ms) :
    timesToggled id (outside group ms) = timesToggled id ms := by
  rw [timesToggled, sinceReset_outside, outside, List.countP_filter, timesToggled]
  refine List.countP_congr fun m hm => ?_
  have hMem := sinceReset_subset ms hm
  cases m with
  | reset => rfl
  | toggle moved g =>
    by_cases hMoved : moved = id
    · have hGroup : g ≠ some group := by
        rintro rfl
        exact hNever (hMoved ▸ hMem)
      simp [toggles, toggledIn?, hGroup]
    · simp [toggles, hMoved]

end Histories

/-! ## The selection after a history -/

/-- The last move changes what the others leave. -/
theorem after_concat (ms : List SelectionMove) (m : SelectionMove) :
    after (ms ++ [m]) = (after ms).apply m := by
  rw [after, List.foldl_append]
  rfl

/-- A group has selected the element that was toggled in it last, whatever else was done. -/
theorem chosen?_after (ms : List SelectionMove) (group : String) :
    (after ms).chosen? group = lastIn? group ms := by
  -- the last move decides, so the induction takes the moves off the end
  induction ms using List.reverseRecOn with
  | nil => rfl
  | append_singleton ms m ih =>
    rw [after_concat]
    cases m with
    | reset =>
      rw [lastIn?_concat_reset]
      rfl
    | toggle id g =>
      rw [lastIn?_concat_toggle, ← ih]
      cases g with
      | none => rfl
      | some g =>
        show ((after ms).toggleIn g id).chosen? group = _
        rw [chosen?_toggleIn]
        simp only [Option.some.injEq, eq_comm]

/-- An element that is only toggled without a group is on exactly after an odd number of toggles. -/
theorem isOn_after_ungrouped {id : String} {ms : List SelectionMove}
    (hOnly : ∀ g, .toggle id g ∈ ms → g = none) :
    (after ms).isOn id = true ↔ Odd (timesToggled id ms) := by
  induction ms using List.reverseRecOn with
  | nil =>
    exact ⟨fun hOn => absurd hOn Bool.false_ne_true, fun hOdd => absurd hOdd Nat.not_odd_zero⟩
  | append_singleton ms m ih =>
    have hIh := ih fun g hg => hOnly g (List.mem_append_left _ hg)
    rw [after_concat]
    cases m with
    | reset =>
      rw [timesToggled_concat_reset]
      exact ⟨fun hOn => absurd hOn Bool.false_ne_true, fun hOdd => absurd hOdd Nat.not_odd_zero⟩
    | toggle moved g =>
      rw [timesToggled_concat_toggle]
      by_cases hMoved : moved = id
      · -- the element is flipped, and its count changes between even and odd
        subst hMoved
        obtain rfl := hOnly g (List.mem_append_right _ List.mem_cons_self)
        show ((after ms).flip moved).isOn moved = true ↔ _
        rw [isOn_flip, if_pos rfl, if_pos rfl, Nat.odd_add_one, ← hIh, Bool.not_eq_true',
          Bool.not_eq_true]
      · rw [if_neg hMoved, Nat.add_zero, ← hIh]
        cases g with
        | none =>
          show ((after ms).flip moved).isOn id = true ↔ _
          rw [isOn_flip, if_neg (Ne.symm hMoved)]
        | some g =>
          -- the group does not let go of the element, which it never selected
          have hUnchosen : (after ms).chosen? g ≠ some id := by
            rw [chosen?_after]
            intro hLast
            have hMem := List.mem_append_left [.toggle moved (some g)] (mem_of_lastIn? hLast)
            cases hOnly (some g) hMem
          show ((after ms).toggleIn g moved).isOn id = true ↔ _
          rw [isOn_toggleIn]
          simp [Ne.symm hMoved, hUnchosen]

/-- A gate is open exactly if its group has selected an element, the one that it asks for. -/
theorem opens_iff (s : Selection) (gate : Gate) : s.opens gate = true ↔
    ∃ id, s.chosen? gate.group = some id ∧ ∀ required, gate.selected = some required →
      id = required := by
  unfold opens
  cases s.chosen? gate.group with
  | none => simp
  | some current => cases gate.selected <;> simp

/-! ## Elements with a group each -/

/-- Every element is toggled in its group only, and without one if it has none. -/
def Assigned (groupOf : String → Option String) (ms : List SelectionMove) : Prop :=
  ∀ id g, .toggle id g ∈ ms → g = groupOf id

/-- The selection after moves, read off the moves. -/
structure ClosedForm (groupOf : String → Option String) (ms : List SelectionMove) : Prop where
  /-- A group has selected the element toggled last in it. -/
  chosen : ∀ group, (after ms).chosen? group = lastIn? group ms
  /-- That one of its elements is on. -/
  grouped : ∀ id group, groupOf id = some group →
    ((after ms).isOn id = true ↔ lastIn? group ms = some id) ∧
    ((after ms).isOn id = true ↔ (after ms).chosen? group = some id)
  ungrouped : ∀ id, groupOf id = none →
    ((after ms).isOn id = true ↔ Odd (timesToggled id ms))
  /-- No two elements of a group are on. -/
  single : ∀ group id other, groupOf id = some group → groupOf other = some group →
    (after ms).isOn id = true → (after ms).isOn other = true → id = other
  /-- Other toggles in a group make no difference to other groups and to elements outside. -/
  independent : ∀ group others, Assigned groupOf others →
    outside group others = outside group ms →
    (∀ other, other ≠ group → (after others).chosen? other = (after ms).chosen? other) ∧
    (∀ id, groupOf id ≠ some group → (after others).isOn id = (after ms).isOn id)
  /-- A gate asks for the last toggle of its group. -/
  gate : ∀ gate : Gate, (after ms).opens gate = true ↔
    ∃ id, lastIn? gate.group ms = some id ∧ ∀ required, gate.selected = some required →
      id = required

section Assigned

variable {groupOf : String → Option String} {ms : List SelectionMove}

/-- Of the elements of a group the one toggled last is on. -/
theorem Assigned.isOn_iff (h : Assigned groupOf ms) {id group : String}
    (hGroup : groupOf id = some group) :
    (after ms).isOn id = true ↔ lastIn? group ms = some id := by
  have hHeld := held_after fun g hg => (h id g hg).trans hGroup
  rw [← chosen?_after]
  exact hHeld.isOn_iff

/-- An element without a group is on if it was toggled an odd number of times. -/
theorem Assigned.isOn_iff_odd (h : Assigned groupOf ms) {id : String} (hGroup : groupOf id = none) :
    (after ms).isOn id = true ↔ Odd (timesToggled id ms) :=
  isOn_after_ungrouped fun g hg => (h id g hg).trans hGroup

/-- What is on outside a group is the same whatever is toggled in the group. -/
theorem Assigned.isOn_congr {others : List SelectionMove} (h : Assigned groupOf ms)
    (hOthers : Assigned groupOf others) {group : String}
    (hSame : outside group others = outside group ms) {id : String}
    (hGroup : groupOf id ≠ some group) : (after others).isOn id = (after ms).isOn id := by
  rw [Bool.eq_iff_iff]
  cases hOwn : groupOf id with
  | some own =>
    have hNe : own ≠ group := fun hEq => hGroup (hEq ▸ hOwn)
    rw [hOthers.isOn_iff hOwn, h.isOn_iff hOwn, ← lastIn?_outside others hNe, hSame,
      lastIn?_outside ms hNe]
  | none =>
    have hNever {history : List SelectionMove} (hAssigned : Assigned groupOf history) :
        .toggle id (some group) ∉ history := fun hMem => hGroup (hAssigned id _ hMem).symm
    rw [hOthers.isOn_iff_odd hOwn, h.isOn_iff_odd hOwn, ← timesToggled_outside (hNever hOthers),
      hSame, timesToggled_outside (hNever h)]

end Assigned

/-- **The closed form of a selection.** Give every element at most one group, and toggle it there
or, if it has none, without a group. Then behind any such moves, however they mix groups, repeat
toggles and reset, groups, toggles and gates are as the moves since the last reset say. -/
theorem closedForm_after {groupOf : String → Option String} {ms : List SelectionMove}
    (h : Assigned groupOf ms) : ClosedForm groupOf ms where
  chosen := chosen?_after ms
  grouped id group hGroup := by
    refine ⟨h.isOn_iff hGroup, ?_⟩
    rw [chosen?_after]
    exact h.isOn_iff hGroup
  ungrouped id hGroup := h.isOn_iff_odd hGroup
  single group id other hId hOther hOnId hOnOther := by
    -- both would be the one toggled last
    have hLast := (h.isOn_iff hId).mp hOnId
    rw [(h.isOn_iff hOther).mp hOnOther, Option.some.injEq] at hLast
    exact hLast.symm
  independent group others hOthers hSame := by
    refine ⟨fun other hOther => ?_, fun id hId => h.isOn_congr hOthers hSame hId⟩
    rw [chosen?_after, chosen?_after, ← lastIn?_outside others hOther, hSame,
      lastIn?_outside ms hOther]
  gate gate := by
    rw [opens_iff, chosen?_after]

/-- Two groups and an element without one, before and after a reset. -/
theorem closedForm_after_mixed :
    let groupOf (id : String) : Option String :=
      if id = "m" then none else if id = "x" then some "h" else some "g"
    let ms : List SelectionMove := [.toggle "a" (some "g"), .toggle "m" none, .reset,
      .toggle "m" none, .toggle "a" (some "g"), .toggle "x" (some "h"), .toggle "m" none,
      .toggle "b" (some "g"), .toggle "b" (some "g"), .toggle "m" none]
    Assigned groupOf ms ∧ (after ms).isOn "b" = true ∧ (after ms).isOn "a" = false ∧
      (after ms).isOn "x" = true ∧ (after ms).isOn "m" = true ∧
      (after ms).opens ⟨"g", some "b"⟩ = true := by
  intro groupOf ms
  have hAssigned : Assigned groupOf ms := by
    intro id g hMem
    simp only [ms, List.mem_cons, SelectionMove.toggle.injEq, reduceCtorEq, List.not_mem_nil,
      or_false, false_or] at hMem
    rcases hMem with h | h | h | h | h | h | h | h | h <;> (obtain ⟨rfl, rfl⟩ := h; decide)
  have hClosed := closedForm_after hAssigned
  have hB := (hClosed.grouped "b" "g" rfl).1.mpr (by decide)
  have hA : (after ms).isOn "a" = false := by
    rw [Bool.eq_false_iff]
    intro hOn
    exact absurd (hClosed.single "g" "a" "b" rfl rfl hOn hB) (by decide)
  have hX := (hClosed.grouped "x" "h" rfl).1.mpr (by decide)
  have hM := (hClosed.ungrouped "m" rfl).mpr (by decide)
  have hGate := (hClosed.gate ⟨"g", some "b"⟩).mpr ⟨"b", by decide, by simp⟩
  exact ⟨hAssigned, hB, hA, hX, hM, hGate⟩

end Onboarding.Selection
