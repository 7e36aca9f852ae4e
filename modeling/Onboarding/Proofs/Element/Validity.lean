import Mathlib.Data.List.Induction
import Mathlib.Data.List.Nodup
import Onboarding.Element.Validity

/-!
# Onboarding — what the check of a forest finds

The check walks a forest and stops at the first element that repeats an id or has
children it may not have. A visitor that never passes over children sees the
document of the forest, element by element, so the check is a search through the
document. A forest is well formed when the search finds nothing.

## Results

* `visitAll_eq_visitEach` — a visitor that passes over nothing sees the document.
* `validate_eq` — the check reports the first fault of the document.
* `validate_eq_ok_iff` — the forests without a fault are the well-formed ones.
* `validate_firstFaulty` — any other forest is refused for its first faulty element.
-/

namespace Onboarding.Element

/-- The ids of a forest in document order. -/
def ids (roots : List Element) : List String := (documents roots).map Element.id

/-- The element has children only if it is a container. -/
def Proper (e : Element) : Prop := e.kind.holdsChildren = false → e.children = []

/-- No two elements share an id, and only containers have children. -/
structure WellFormed (roots : List Element) : Prop where
  nodup : (ids roots).Nodup
  proper : ∀ e ∈ documents roots, e.Proper

/-! ## Visits of the document -/

section Visits

variable {σ : Type} {visit : Visitor σ}

/-- Visit elements in turn, without their ancestors, until one of them stops the visit. -/
def visitEach (visit : Visitor σ) (s : σ) : List Element → σ × Bool
  | [] => (s, true)
  | e :: rest =>
    match visit s e [] with
    | (s, .stop) => (s, false)
    | (s, _) => visitEach visit s rest

/-- Two stretches are visited one behind the other, unless the first one stops it. -/
theorem visitEach_append (s : σ) (xs ys : List Element) :
    visitEach visit s (xs ++ ys) =
      if (visitEach visit s xs).2 then visitEach visit (visitEach visit s xs).1 ys
      else visitEach visit s xs := by
  induction xs generalizing s with
  | nil => rfl
  | cons e xs ih =>
    rw [List.cons_append, visitEach, visitEach]
    cases visit s e [] with
    | mk s' step => cases step <;> first | rfl | exact ih s'

mutual

theorem visitOne_eq_visitEach (hPath : ∀ s e path, visit s e path = visit s e [])
    (hSkip : ∀ s e, (visit s e []).2 ≠ .skipChildren) : ∀ (e : Element) (path : List Element)
    (s : σ), visitOne visit path s e = visitEach visit s (document e)
  | node a cs, path, s => by
    rw [visitOne, document, visitEach, hPath]
    cases hVisit : visit s (node a cs) [] with
    | mk s' step =>
      cases step with
      | proceed => exact visitAll_eq_visitEach hPath hSkip cs _ s'
      | skipChildren => exact absurd (congrArg Prod.snd hVisit) (hSkip s _)
      | stop => rfl

/-- A visitor that passes over nothing and does not look at ancestors sees the document. -/
theorem visitAll_eq_visitEach (hPath : ∀ s e path, visit s e path = visit s e [])
    (hSkip : ∀ s e, (visit s e []).2 ≠ .skipChildren) : ∀ (es : List Element)
    (path : List Element) (s : σ), visitAll visit path s es = visitEach visit s (documents es)
  | [], _, _ => rfl
  | e :: rest, path, s => by
    rw [visitAll, documents, visitEach_append, visitOne_eq_visitEach hPath hSkip e]
    cases visitEach visit s (document e) with
    | mk s' goes =>
      cases goes with
      | true => exact visitAll_eq_visitEach hPath hSkip rest path s'
      | false => rfl

end

end Visits

/-! ## Faults -/

/-- What is wrong with an element that stands behind others. -/
def faultAt (before : List Element) (e : Element) : Option ForestError :=
  if e.id ∈ before.map Element.id then some (.duplicateId e.id)
  else if e.kind.holdsChildren = false ∧ e.children ≠ [] then
    some (.leafWithChildren e.id e.kind)
  else none

/-- The first thing that is wrong with elements that stand behind others. -/
def firstFault (before : List Element) : List Element → Option ForestError
  | [] => none
  | e :: rest => (faultAt before e).or (firstFault (before ++ [e]) rest)

/-- The check has seen these elements and found nothing. -/
structure Clean (before : List Element) (s : Check) : Prop where
  seen : ∀ id, s.ids.seen.contains id = decide (id ∈ before.map Element.id)
  repeated : s.ids.repeated = []
  error : s.error = none

theorem clean_nil : Clean [] {} := ⟨fun _ => rfl, rfl, rfl⟩

section Checks

variable {before : List Element} {s : Check}

/-- An element that is noted has been seen. -/
theorem Clean.contains_note (h : Clean before s) (e : Element) (id : String) :
    (s.ids.note e.id).seen.contains id = decide (id ∈ (before ++ [e]).map Element.id) := by
  rw [SeenIds.contains_seen_note, h.seen, List.map_append, Bool.eq_iff_iff]
  simp [or_comm]

/-- In a clean part of a forest an id is repeated if it stands there already. -/
theorem Clean.repeated_note (h : Clean before s) (e : Element) :
    (s.ids.note e.id).repeated = if e.id ∈ before.map Element.id then [e.id] else [] := by
  rw [SeenIds.repeated_note, h.repeated, h.seen]
  simp

/-- The check stops at an element with a fault and says what it is. -/
theorem checkVisitor_fault (h : Clean before s) {e : Element} {fault : ForestError}
    (hFault : faultAt before e = some fault) :
    (checkVisitor s e []).2 = .stop ∧ (checkVisitor s e []).1.error = some fault := by
  have hRepeated := h.repeated_note e
  unfold faultAt at hFault
  unfold checkVisitor
  split at hFault
  · next hMem =>
    cases hFault
    simp [hRepeated, hMem]
  · next hNotMem =>
    rw [Option.ite_none_right_eq_some] at hFault
    obtain ⟨⟨hLeaf, hChildren⟩, hFault⟩ := hFault
    cases hFault
    simp [hRepeated, hNotMem, hLeaf, hChildren]

/-- An element without a fault is seen, and the check goes on. -/
theorem checkVisitor_clean (h : Clean before s) {e : Element} (hFault : faultAt before e = none) :
    (checkVisitor s e []).2 = .proceed ∧ Clean (before ++ [e]) (checkVisitor s e []).1 := by
  have hRepeated := h.repeated_note e
  unfold faultAt at hFault
  split at hFault
  · cases hFault
  · next hNotMem =>
    rw [if_neg hNotMem] at hRepeated
    -- no fault at `e`: its id is new, and it has children only where its kind holds them
    have hProper : (!e.kind.holdsChildren && !e.children.isEmpty) = false := by
      rw [ite_eq_right_iff] at hFault
      cases hKind : e.kind.holdsChildren with
      | true => rfl
      | false =>
        by_cases hChildren : e.children = []
        · simp [hChildren]
        · exact absurd (hFault ⟨hKind, hChildren⟩) (by simp)
    have hStep : checkVisitor s e [] = ({ s with ids := s.ids.note e.id }, .proceed) := by
      simp only [checkVisitor, hRepeated, hProper]
      rfl
    rw [hStep]
    exact ⟨rfl, h.contains_note e, hRepeated, h.error⟩

/-- A check that has found nothing reports the first fault of what follows. -/
theorem error_visitEach (h : Clean before s) (es : List Element) :
    (visitEach checkVisitor s es).1.error = firstFault before es := by
  induction es generalizing before s with
  | nil => exact h.error
  | cons e rest ih =>
    rw [visitEach, firstFault]
    -- the visitor stops at the first fault, and behind a clean element the invariant holds again
    cases hFault : faultAt before e with
    | some fault =>
      obtain ⟨hStop, hError⟩ := checkVisitor_fault h hFault
      cases hVisit : checkVisitor s e [] with
      | mk s' step =>
        rw [hVisit] at hStop hError
        cases hStop
        exact hError
    | none =>
      obtain ⟨hProceed, hClean⟩ := checkVisitor_clean h hFault
      cases hVisit : checkVisitor s e [] with
      | mk s' step =>
        rw [hVisit] at hProceed hClean
        cases hProceed
        exact ih hClean

end Checks

/-- The check passes over nothing. -/
theorem checkVisitor_ne_skipChildren (s : Check) (e : Element) :
    (checkVisitor s e []).2 ≠ .skipChildren := by
  unfold checkVisitor
  dsimp only
  split
  · simp
  · split <;> simp

/-- The check reports the first fault of the document. -/
theorem validate_eq (roots : List Element) :
    validate roots = match firstFault [] (documents roots) with
      | some fault => .error fault
      | none => .ok () := by
  have hError : (walk checkVisitor {} roots).error = firstFault [] (documents roots) := by
    rw [walk, visitAll_eq_visitEach (fun _ _ _ => rfl) checkVisitor_ne_skipChildren,
      error_visitEach clean_nil]
  rw [← hError]
  unfold validate
  cases (walk checkVisitor {} roots).error <;> rfl

/-! ## Well-formed forests -/

theorem faultAt_eq_none_iff {before : List Element} {e : Element} :
    faultAt before e = none ↔ e.id ∉ before.map Element.id ∧ e.Proper := by
  unfold faultAt Proper
  by_cases hMem : e.id ∈ before.map Element.id
  · simp [hMem]
  · rw [if_neg hMem, ite_eq_right_iff]
    simp [hMem]

/-- Nothing is wrong exactly if no id comes again and only containers have children. -/
theorem firstFault_eq_none_iff {before es : List Element} : firstFault before es = none ↔
    (∀ e ∈ es, e.id ∉ before.map Element.id) ∧ (es.map Element.id).Nodup ∧
      ∀ e ∈ es, e.Proper := by
  induction es generalizing before with
  | nil => simp [firstFault]
  | cons e rest ih =>
    rw [firstFault, Option.or_eq_none_iff, faultAt_eq_none_iff, ih, List.map_cons, List.nodup_cons,
      List.forall_mem_cons, List.forall_mem_cons]
    -- an id among the rest is new if it is neither before the element nor the element's own
    have hSplit : (∀ x ∈ rest, x.id ∉ (before ++ [e]).map Element.id) ↔
        (∀ x ∈ rest, x.id ∉ before.map Element.id) ∧ e.id ∉ rest.map Element.id := by
      simp only [List.map_append, List.mem_append, not_or, List.map_singleton, List.mem_singleton]
      constructor
      · intro h
        refine ⟨fun x hx => (h x hx).1, fun hMem => ?_⟩
        obtain ⟨x, hx, hId⟩ := List.mem_map.mp hMem
        exact (h x hx).2 hId
      · rintro ⟨hBefore, hOwn⟩ x hx
        exact ⟨hBefore x hx, fun hId => hOwn (List.mem_map.mpr ⟨x, hx, hId⟩)⟩
    rw [hSplit]
    tauto

/-- The forests that pass the check are the well-formed ones. -/
theorem validate_eq_ok_iff {roots : List Element} : validate roots = .ok () ↔ WellFormed roots := by
  have hNone : validate roots = .ok () ↔ firstFault [] (documents roots) = none := by
    rw [validate_eq]
    cases firstFault [] (documents roots) <;> simp
  rw [hNone, firstFault_eq_none_iff]
  constructor
  · rintro ⟨-, hNodup, hProper⟩
    exact ⟨hNodup, hProper⟩
  · rintro ⟨hNodup, hProper⟩
    exact ⟨fun _ _ => List.not_mem_nil, hNodup, hProper⟩

/-! ## The first faulty element -/

/-- An element that stands behind others has a fault: it repeats one of their ids, or it has
children and is no container. -/
def Faulty (before : List Element) (e : Element) : Prop :=
  e.id ∈ before.map Element.id ∨ ¬ e.Proper

/-- The element is the first one of the document that has a fault, behind `before`. -/
structure FirstFaulty (roots before : List Element) (e : Element) : Prop where
  stands : before ++ [e] <+: documents roots
  faulty : Faulty before e
  first : ∀ front x, front ++ [x] <+: before → ¬ Faulty front x

theorem faultAt_eq_none_iff_not_faulty {before : List Element} {e : Element} :
    faultAt before e = none ↔ ¬ Faulty before e := by
  rw [faultAt_eq_none_iff, Faulty, not_or, not_not]

/-- A repeated id is reported, also if the element has children that it may not have. -/
theorem faultAt_of_faulty {before : List Element} {e : Element} (h : Faulty before e) :
    faultAt before e = some (if e.id ∈ before.map Element.id then .duplicateId e.id
      else .leafWithChildren e.id e.kind) := by
  unfold faultAt
  by_cases hMem : e.id ∈ before.map Element.id
  · rw [if_pos hMem, if_pos hMem]
  · have hLeaf : e.kind.holdsChildren = false ∧ e.children ≠ [] := by
      have hImproper := h.resolve_left hMem
      rwa [Proper, Classical.not_imp] at hImproper
    rw [if_neg hMem, if_neg hMem, if_pos hLeaf]

/-- The first fault of two stretches is that of the first one, if it has any. -/
theorem firstFault_append (before xs ys : List Element) : firstFault before (xs ++ ys) =
    (firstFault before xs).or (firstFault (before ++ xs) ys) := by
  induction xs generalizing before with
  | nil => rw [List.nil_append, List.append_nil]; rfl
  | cons e xs ih =>
    rw [List.cons_append, firstFault, firstFault, ih, List.append_assoc, List.singleton_append,
      Option.or_assoc]

theorem firstFault_concat (es : List Element) (e : Element) :
    firstFault [] (es ++ [e]) = (firstFault [] es).or (faultAt es e) := by
  rw [firstFault_append, List.nil_append, firstFault, firstFault, Option.or_none]

/-- Nothing is wrong exactly if no element has a fault where it stands. -/
theorem firstFault_eq_none_iff_forall {es : List Element} :
    firstFault [] es = none ↔ ∀ front x, front ++ [x] <+: es → ¬ Faulty front x := by
  constructor
  · -- the search passes every element that has some in front
    rintro hNone front x ⟨rest, rfl⟩
    rw [firstFault_append, firstFault_concat, Option.or_eq_none_iff, Option.or_eq_none_iff] at hNone
    exact faultAt_eq_none_iff_not_faulty.mp hNone.1.2
  · intro hClean
    -- the last element has all others in front, so the list is taken apart at its end
    induction es using List.reverseRecOn with
    | nil => rfl
    | append_singleton es e ih =>
      have hEs := ih fun front x hPrefix => hClean front x (hPrefix.trans (List.prefix_append _ _))
      have hLast := hClean es e (List.prefix_refl _)
      rw [firstFault_concat, hEs, faultAt_eq_none_iff_not_faulty.mpr hLast]
      rfl

/-- If something is wrong, some element is the first one with a fault. -/
theorem exists_first_faulty {es : List Element} (h : firstFault [] es ≠ none) :
    ∃ before e, before ++ [e] <+: es ∧ Faulty before e ∧
      ∀ front x, front ++ [x] <+: before → ¬ Faulty front x := by
  induction es using List.reverseRecOn with
  | nil => exact absurd rfl h
  | append_singleton es e ih =>
    by_cases hEs : firstFault [] es = none
    · -- up to the last element nothing is wrong, so it is the first one with a fault
      refine ⟨es, e, List.prefix_refl _, ?_, firstFault_eq_none_iff_forall.mp hEs⟩
      by_contra hSound
      rw [firstFault_concat, hEs, faultAt_eq_none_iff_not_faulty.mpr hSound] at h
      exact h rfl
    · obtain ⟨before, x, hStands, hFaulty, hFirst⟩ := ih hEs
      exact ⟨before, x, hStands.trans (List.prefix_append _ _), hFaulty, hFirst⟩

/-- The first faulty element has the first fault. -/
theorem FirstFaulty.firstFault_eq {roots before : List Element} {e : Element}
    (h : FirstFaulty roots before e) :
    firstFault [] (documents roots) = faultAt before e := by
  obtain ⟨rest, hDocument⟩ := h.stands
  rw [← hDocument, firstFault_append, firstFault_concat,
    firstFault_eq_none_iff_forall.mpr h.first, Option.none_or, faultAt_of_faulty h.faulty]
  rfl

/-- **The check is sound and complete, and reports the first fault.** It accepts exactly the forests
in which no two elements share an id and only containers have children. In any other forest some
element of the document is the first that repeats an id or has children it may not have, and the
check says which of the two it is; if it is both, the repeated id. -/
theorem validate_firstFaulty (roots : List Element) :
    (validate roots = .ok () ↔ (ids roots).Nodup ∧ ∀ e ∈ documents roots, e.Proper) ∧
    (validate roots ≠ .ok () → ∃ before e, FirstFaulty roots before e) ∧
    ∀ before e, FirstFaulty roots before e → validate roots =
      .error (if e.id ∈ before.map Element.id then .duplicateId e.id
        else .leafWithChildren e.id e.kind) := by
  refine ⟨?_, ?_, ?_⟩
  · rw [validate_eq_ok_iff]
    exact ⟨fun h => ⟨h.nodup, h.proper⟩, fun h => ⟨h.1, h.2⟩⟩
  · intro hRefused
    -- validation is the first fault of the preorder, so a refusal names one
    have hFault : firstFault [] (documents roots) ≠ none := by
      rintro hNone
      rw [validate_eq, hNone] at hRefused
      exact hRefused rfl
    obtain ⟨before, e, hStands, hFaulty, hFirst⟩ := exists_first_faulty hFault
    exact ⟨before, e, hStands, hFaulty, hFirst⟩
  · intro before e hFirst
    rw [validate_eq, hFirst.firstFault_eq, faultAt_of_faulty hFirst.faulty]

/-- An icon with a child that it may not have repeats an id, and so does a later element. -/
theorem validate_firstFaulty_both :
    let icon := node { id := "a", kind := .icon } [plain "b" .text]
    let row := node { id := "r", kind := .vstack } [plain "a" .text, icon]
    let before := [row, plain "a" .text]
    let roots := [row, plain "r" .text]
    FirstFaulty roots before icon ∧ validate roots ≠ .ok () ∧
      (∃ before e, FirstFaulty roots before e) ∧ validate roots = .error (.duplicateId "a") := by
  intro icon row before roots
  have hFirst : FirstFaulty roots before icon := by
    refine ⟨⟨[plain "b" .text, plain "r" .text], rfl⟩, .inl (by decide), ?_⟩
    refine firstFault_eq_none_iff_forall.mp ?_
    rfl
  obtain ⟨-, hExists, hReports⟩ := validate_firstFaulty roots
  have hRefused : validate roots ≠ .ok () := by
    rw [hReports before icon hFirst]
    simp
  exact ⟨hFirst, hRefused, hExists hRefused, hReports before icon hFirst⟩

end Onboarding.Element
