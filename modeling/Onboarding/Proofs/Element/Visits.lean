import Onboarding.Element.Walk
import Onboarding.Proofs.Element.Occurrence

/-!
# Onboarding — what a walk visits

What a visitor answers may depend on all that it has seen, so which elements a walk
visits is said of the visits themselves: a log of them, each with the place where the
visitor was and its answer. The walk gets as far as the first answer that stops it,
and of the places that far it leaves out those below one where the answer was to pass
over the children. That decides the log: what has been answered at the places before
tells whether the next one is visited.

Places and their order are said without the walk. Indices lead from the roots to a
place (`Leads`), and one place comes before another if its indices are
lexicographically smaller, so a parent comes before its children.

## Results

* `mem_allOccurrences_iff` — the places of a forest are those that indices lead to.
* `pairwise_position_allOccurrences` — they are listed in document order.
* `exists_visits_walk` — what a walk visits, with the answers.
* `locate?_eq` — looking up an id finds the first place of an element with it.
* `walk_in_document_order` — all of this of one walk.
-/

namespace Onboarding.Element

/-! ## Places -/

/-- The indices lead into a forest past the elements of the path, whose last one is the goal. -/
inductive Leads : List Element → List Nat → List Element → Prop where
  | here (es : List Element) : Leads es [] []
  | into {es : List Element} {i : Nat} {e : Element} {position : List Nat} {path : List Element}
      (hChild : es[i]? = some e) (hRest : Leads e.children position path) :
      Leads es (i :: position) (e :: path)

/-- A path has one element for every index. -/
theorem Leads.length_eq {es : List Element} {position : List Nat} {path : List Element}
    (h : Leads es position path) : path.length = position.length := by
  induction h with
  | here => rfl
  | into _ _ ih => rw [List.length_cons, List.length_cons, ih]

/-- What leads to a place leads to the one around it. -/
theorem Leads.dropLast {es : List Element} {position : List Nat} {path : List Element}
    (h : Leads es position path) : Leads es position.dropLast path.dropLast := by
  induction h with
  | here es => exact .here es
  | into hChild hRest ih =>
    cases hRest with
    | here => exact .here _
    | into => exact .into hChild ih

/-- A place is told by its indices and the path to it. -/
theorem Occurrence.ext_path {o p : Occurrence} (hPosition : o.position = p.position)
    (hPath : o.path = p.path) : o = p := by
  obtain ⟨position, ancestors, e⟩ := o
  obtain ⟨position', ancestors', e'⟩ := p
  obtain ⟨rfl, hElement⟩ := List.append_inj' hPath rfl
  cases hPosition
  cases hElement
  rfl

mutual

/-- The places of an element and of all inside are those that indices lead to. -/
theorem mem_occurrences_iff : ∀ (e : Element) {position : List Nat} {ancestors : List Element}
    {o : Occurrence}, o ∈ occurrences position ancestors e ↔
      ∃ q p, o.position = position ++ q ∧ o.path = ancestors ++ e :: p ∧ Leads e.children q p
  | node a cs, position, ancestors, o => by
    rw [occurrences, List.mem_cons, mem_occurrencesIn_iff cs]
    -- the empty way is the element itself, any other goes into a child
    constructor
    · rintro (rfl | ⟨j, q, e, p, hPosition, hPath, hChild, hLeads⟩)
      · exact ⟨[], [], (List.append_nil _).symm, rfl, .here _⟩
      · refine ⟨j :: q, e :: p, ?_, ?_, .into hChild hLeads⟩
        · rw [hPosition, Nat.zero_add]
        · rw [hPath, List.append_assoc, List.singleton_append]
    · rintro ⟨q, p, hPosition, hPath, hLeads⟩
      cases hLeads with
      | here =>
        rw [List.append_nil] at hPosition
        exact .inl (Occurrence.ext_path hPosition hPath)
      | @into _ j e q p hChild hLeads =>
        refine .inr ⟨j, q, e, p, ?_, ?_, hChild, hLeads⟩
        · rw [hPosition, Nat.zero_add]
        · rw [hPath, List.append_assoc, List.singleton_append]

/-- The places of a list are those that indices lead to, its own index in front. -/
theorem mem_occurrencesIn_iff : ∀ (es : List Element) {position : List Nat}
    {ancestors : List Element} {i : Nat} {o : Occurrence},
    o ∈ occurrencesIn position ancestors i es ↔
      ∃ j q e p, o.position = position ++ (i + j) :: q ∧ o.path = ancestors ++ e :: p ∧
        es[j]? = some e ∧ Leads e.children q p
  | [], _, _, _, _ => by simp [occurrencesIn]
  | e :: rest, position, ancestors, i, o => by
    rw [occurrencesIn, List.mem_append, mem_occurrences_iff e, mem_occurrencesIn_iff rest]
    -- the head stands at index `i`, the others one further on than in the list of the rest
    constructor
    · rintro (⟨q, p, hPosition, hPath, hLeads⟩ | ⟨j, q, x, p, hPosition, hPath, hChild, hLeads⟩)
      · refine ⟨0, q, e, p, ?_, hPath, rfl, hLeads⟩
        rw [hPosition, List.append_assoc, List.singleton_append, Nat.add_zero]
      · refine ⟨j + 1, q, x, p, ?_, hPath, hChild, hLeads⟩
        rw [hPosition, Nat.add_right_comm, Nat.add_assoc]
    · rintro ⟨j, q, x, p, hPosition, hPath, hChild, hLeads⟩
      cases j with
      | zero =>
        cases hChild
        refine .inl ⟨q, p, ?_, hPath, hLeads⟩
        rw [hPosition, List.append_assoc, List.singleton_append, Nat.add_zero]
      | succ j =>
        refine .inr ⟨j, q, x, p, ?_, hPath, hChild, hLeads⟩
        rw [hPosition, Nat.add_right_comm, Nat.add_assoc]

end

/-- The places of a forest are those that indices lead to. -/
theorem mem_allOccurrences_iff {roots : List Element} {o : Occurrence} :
    o ∈ allOccurrences roots ↔ Leads roots o.position o.path := by
  rw [allOccurrences, mem_occurrencesIn_iff]
  constructor
  · rintro ⟨j, q, e, p, hPosition, hPath, hChild, hLeads⟩
    rw [hPosition, hPath, Nat.zero_add]
    exact .into hChild hLeads
  · intro h
    have hPath : o.path ≠ [] := by simp [Occurrence.path]
    generalize hPositions : o.position = position at h
    generalize hElements : o.path = path at h hPath
    cases h with
    | here => exact absurd rfl hPath
    | @into _ j e q p hChild hLeads =>
      exact ⟨j, q, e, p, by rw [Nat.zero_add]; rfl, rfl, hChild, hLeads⟩

/-! ## Order -/

namespace Occurrence

/-- The place comes first in document order. -/
def Before (o p : Occurrence) : Prop := o.position < p.position

/-- The element of the one place is an ancestor of that of the other. -/
def IsAbove (o p : Occurrence) : Prop := o.position <+: p.position ∧ o.position ≠ p.position

instance (o p : Occurrence) : Decidable (o.IsAbove p) := inferInstanceAs (Decidable (_ ∧ _))

theorem not_isAbove_self (o : Occurrence) : ¬ o.IsAbove o := fun h => h.2 rfl

/-- No place is above one that is above it. -/
theorem IsAbove.asymm {o p : Occurrence} (h : o.IsAbove p) : ¬ p.IsAbove o := fun h' =>
  h.2 (h.1.eq_of_length_le h'.1.length_le)

/-- What stands in different siblings is not above each other. -/
theorem not_isAbove_of_index_ne {o p : Occurrence} {position q q' : List Nat} {i j : Nat}
    (ho : o.position = position ++ i :: q) (hp : p.position = position ++ j :: q') (hne : i ≠ j) :
    ¬ o.IsAbove p := by
  rintro ⟨hPrefix, -⟩
  rw [ho, hp, List.prefix_append_right_inj, List.cons_prefix_cons] at hPrefix
  exact hne hPrefix.1

end Occurrence

/-- An element is above everything inside. -/
theorem isAbove_of_mem_occurrencesIn {es : List Element} {position : List Nat}
    {ancestors around : List Element} {i : Nat} {e : Element} {o : Occurrence}
    (h : o ∈ occurrencesIn position around i es) :
    (⟨position, ancestors, e⟩ : Occurrence).IsAbove o := by
  obtain ⟨j, q, x, p, hPosition, -⟩ := (mem_occurrencesIn_iff es).mp h
  rw [Occurrence.IsAbove, hPosition]
  exact ⟨List.prefix_append _ _, by simp⟩

/-- Nothing in an element is above anything in a later sibling, nor the other way round. -/
theorem not_isAbove_of_siblings {e : Element} {rest : List Element} {position : List Nat}
    {ancestors : List Element} {i : Nat} {o p : Occurrence}
    (ho : o ∈ occurrences (position ++ [i]) ancestors e)
    (hp : p ∈ occurrencesIn position ancestors (i + 1) rest) : ¬ o.IsAbove p ∧ ¬ p.IsAbove o := by
  obtain ⟨q, -, hFirst, -⟩ := (mem_occurrences_iff e).mp ho
  obtain ⟨j, q', -, -, hSecond, -⟩ := (mem_occurrencesIn_iff rest).mp hp
  rw [List.append_assoc, List.singleton_append] at hFirst
  exact ⟨Occurrence.not_isAbove_of_index_ne hFirst hSecond (by omega),
    Occurrence.not_isAbove_of_index_ne hSecond hFirst (by omega)⟩

mutual

/-- The places of an element are listed in document order, the element first. -/
theorem pairwise_occurrences : ∀ (e : Element) (position : List Nat) (ancestors : List Element),
    (occurrences position ancestors e).Pairwise Occurrence.Before
  | node a cs, position, ancestors => by
    rw [occurrences, List.pairwise_cons]
    refine ⟨fun o ho => ?_, pairwise_occurrencesIn cs _ _ _⟩
    obtain ⟨j, q, x, p, hPosition, -⟩ := (mem_occurrencesIn_iff cs).mp ho
    have hLt : position ++ [] < position ++ (0 + j) :: q :=
      List.append_left_lt (List.nil_lt_cons _ _)
    rwa [List.append_nil, ← hPosition] at hLt

theorem pairwise_occurrencesIn : ∀ (es : List Element) (position : List Nat)
    (ancestors : List Element) (i : Nat),
    (occurrencesIn position ancestors i es).Pairwise Occurrence.Before
  | [], _, _, _ => List.Pairwise.nil
  | e :: rest, position, ancestors, i => by
    rw [occurrencesIn, List.pairwise_append]
    refine ⟨pairwise_occurrences e _ _, pairwise_occurrencesIn rest _ _ _, fun o ho p hp => ?_⟩
    obtain ⟨q, -, hFirst, -⟩ := (mem_occurrences_iff e).mp ho
    obtain ⟨j, q', -, -, hSecond, -⟩ := (mem_occurrencesIn_iff rest).mp hp
    rw [List.append_assoc, List.singleton_append] at hFirst
    rw [Occurrence.Before, hFirst, hSecond]
    exact List.append_left_lt (List.cons_lt_cons_iff.mpr (.inl (by omega)))

end

/-- Everything in a forest is listed in document order. -/
theorem pairwise_position_allOccurrences (roots : List Element) :
    (allOccurrences roots).Pairwise Occurrence.Before :=
  pairwise_occurrencesIn roots [] [] 0

/-! ## Visits -/

/-- A visit: where a visitor was, and how it said to go on. -/
structure Visit where
  occurrence : Occurrence
  answer : Step

/-- The visitor comes to the places of the log in turn, each time with the elements around as the
path, gives these answers and goes from the one state to the other. -/
inductive Answers {σ : Type} (visit : Visitor σ) : σ → List Visit → σ → Prop where
  | nil (s : σ) : Answers visit s [] s
  | cons {s s' t : σ} {o : Occurrence} {answer : Step} {log : List Visit}
      (hVisit : visit s o.element o.ancestors = (s', answer)) (hRest : Answers visit s' log t) :
      Answers visit s (⟨o, answer⟩ :: log) t

/-- No element around the place was answered with passing over the children. -/
def Clear (log : List Visit) (o : Occurrence) : Prop :=
  ∀ v ∈ log, v.answer = .skipChildren → ¬ v.occurrence.IsAbove o

instance (log : List Visit) : DecidablePred (Clear log) := fun _ =>
  inferInstanceAs (Decidable (∀ _ ∈ log, _))

/-- A walk that goes on has reached everything and was never stopped. One that does not was stopped
at the last place that it has reached, by its last visit and no other. -/
def Ends (log : List Visit) (reached beyond : List Occurrence) : Bool → Prop
  | true => beyond = [] ∧ ∀ v ∈ log, v.answer ≠ .stop
  | false => ∃ front v before, log = front ++ [v] ∧ v.answer = .stop ∧
      (∀ u ∈ front, u.answer ≠ .stop) ∧ reached = before ++ [v.occurrence]

/-- The log of a walk over the places, which goes on behind them or was stopped: it has the places
that were reached, without those below an element whose children were passed over. -/
def Visited (places : List Occurrence) (log : List Visit) (goes : Bool) : Prop :=
  ∃ reached beyond, places = reached ++ beyond ∧
    log.map Visit.occurrence = reached.filter (Clear log) ∧ Ends log reached beyond goes

section Logs

variable {σ : Type} {visit : Visitor σ} {s t : σ} {log more : List Visit}

/-- A log is answered in one go if both of its parts are, one behind the other. -/
theorem answers_append_iff : Answers visit s (log ++ more) t ↔
    ∃ m, Answers visit s log m ∧ Answers visit m more t := by
  constructor
  · intro h
    induction log generalizing s with
    | nil => exact ⟨s, .nil s, h⟩
    | cons v log ih =>
      cases h with
      | cons hVisit hRest =>
        obtain ⟨m, hLog, hMore⟩ := ih hRest
        exact ⟨m, .cons hVisit hLog, hMore⟩
  · rintro ⟨m, hLog, hMore⟩
    induction hLog with
    | nil => exact hMore
    | cons hVisit _ ih => exact .cons hVisit (ih hMore)

/-- The elements around a place are looked for in both parts of a log. -/
theorem clear_append_iff {o : Occurrence} : Clear (log ++ more) o ↔ Clear log o ∧ Clear more o :=
  List.forall_mem_append

variable {places others : List Occurrence} {goes : Bool}

/-- Only places of the forest are visited. -/
theorem Visited.mem (h : Visited places log goes) {v : Visit} (hv : v ∈ log) :
    v.occurrence ∈ places := by
  obtain ⟨reached, beyond, rfl, hLog, -⟩ := h
  have hMem : v.occurrence ∈ log.map Visit.occurrence := List.mem_map_of_mem hv
  rw [hLog] at hMem
  exact List.mem_append_left _ (List.mem_filter.mp hMem).1

/-- A visitor that stops at an element visits nothing inside and nothing behind. -/
theorem visited_stop (o : Occurrence) (inside : List Occurrence) :
    Visited (o :: inside) [⟨o, .stop⟩] false := by
  refine ⟨[o], inside, rfl, ?_, [], ⟨o, .stop⟩, [], rfl, rfl, by simp, rfl⟩
  simp [Clear]

/-- A visitor that passes over the children goes on behind them. -/
theorem visited_skip {o : Occurrence} {inside : List Occurrence} (h : ∀ p ∈ inside, o.IsAbove p) :
    Visited (o :: inside) [⟨o, .skipChildren⟩] true := by
  refine ⟨o :: inside, [], (List.append_nil _).symm, ?_, rfl, by simp⟩
  have hInside : inside.filter (Clear [⟨o, .skipChildren⟩]) = [] := by
    rw [List.filter_eq_nil_iff]
    intro p hp
    simp [Clear, h p hp]
  have hSelf : Clear [⟨o, .skipChildren⟩] o := by simp [Clear, o.not_isAbove_self]
  rw [List.filter_cons_of_pos (by simpa using hSelf), hInside]
  rfl

/-- An element whose children are visited in the same way. -/
theorem Visited.cons {o : Occurrence} (h : Visited places log goes)
    (hAbove : ∀ p ∈ places, o.IsAbove p) :
    Visited (o :: places) (⟨o, .proceed⟩ :: log) goes := by
  -- the element lies above all the others, so none of them hides it
  have hSelf : Clear log o := fun v hv _ hBelow => (hAbove _ (h.mem hv)).asymm hBelow
  obtain ⟨reached, beyond, hPlaces, hLog, hEnds⟩ := h
  refine ⟨o :: reached, beyond, by rw [hPlaces, List.cons_append], ?_, ?_⟩
  · have hClear (p : Occurrence) : Clear (⟨o, .proceed⟩ :: log) p ↔ Clear log p := by
      simp [Clear]
    simp only [hClear]
    rw [List.filter_cons_of_pos (by simpa using hSelf), List.map_cons, hLog]
  · cases goes with
    | true => exact ⟨hEnds.1, List.forall_mem_cons.mpr ⟨by simp, hEnds.2⟩⟩
    | false =>
      obtain ⟨front, v, before, rfl, hStop, hFront, rfl⟩ := hEnds
      exact ⟨⟨o, .proceed⟩ :: front, v, o :: before, rfl, hStop,
        List.forall_mem_cons.mpr ⟨by simp, hFront⟩, rfl⟩

/-- A walk that was stopped does not get to what follows. -/
theorem Visited.stopped (h : Visited places log false) : Visited (places ++ others) log false := by
  obtain ⟨reached, beyond, rfl, hLog, hEnds⟩ := h
  exact ⟨reached, beyond ++ others, List.append_assoc .., hLog, hEnds⟩

/-- A walk that goes on visits what follows. -/
theorem Visited.append (h : Visited places log true) (h' : Visited others more goes)
    (hApart : ∀ o ∈ places, ∀ p ∈ others, ¬ o.IsAbove p ∧ ¬ p.IsAbove o) :
    Visited (places ++ others) (log ++ more) goes := by
  have hFirst : ∀ o ∈ places, Clear more o := fun o ho v hv _ =>
    (hApart o ho _ (h'.mem hv)).2
  have hSecond : ∀ p ∈ others, Clear log p := fun p hp v hv _ =>
    (hApart _ (h.mem hv) p hp).1
  -- the first part ran through, so nothing lies beyond it: the second part's end is the end of both
  obtain ⟨reached, beyond, rfl, hLog, rfl, hGoes⟩ := h
  obtain ⟨reached', beyond', rfl, hMore, hEnds⟩ := h'
  rw [List.append_nil] at hFirst ⊢
  refine ⟨reached ++ reached', beyond', (List.append_assoc ..).symm, ?_, ?_⟩
  · rw [List.map_append, hLog, hMore, List.filter_append]
    congr 1
    · refine List.filter_congr fun o ho => ?_
      simp [clear_append_iff, hFirst o ho]
    · refine List.filter_congr fun p hp => ?_
      simp [clear_append_iff, hSecond p (List.mem_append_left _ hp)]
  · cases goes with
    | true => exact ⟨hEnds.1, List.forall_mem_append.mpr ⟨hGoes, hEnds.2⟩⟩
    | false =>
      obtain ⟨front, v, before, rfl, hStop, hFront, rfl⟩ := hEnds
      exact ⟨log ++ front, v, reached ++ before, (List.append_assoc ..).symm, hStop,
        List.forall_mem_append.mpr ⟨hGoes, hFront⟩, (List.append_assoc ..).symm⟩

end Logs

/-! ## Walks -/

section Walks

variable {σ : Type}

mutual

/-- The walk over an element is told by a log of its places. -/
theorem exists_visits_one (visit : Visitor σ) : ∀ (e : Element) (position : List Nat)
    (ancestors : List Element) (s : σ), ∃ log,
    Answers visit s log (visitOne visit ancestors s e).1 ∧
      Visited (occurrences position ancestors e) log (visitOne visit ancestors s e).2
  | node a cs, position, ancestors, s => by
    have hAbove : ∀ p ∈ occurrencesIn position (ancestors ++ [node a cs]) 0 cs,
        (⟨position, ancestors, node a cs⟩ : Occurrence).IsAbove p :=
      fun p hp => isAbove_of_mem_occurrencesIn hp
    rw [visitOne, occurrences]
    cases hVisit : visit s (node a cs) ancestors with
    | mk s' answer =>
      -- only `proceed` enters the children, all of which lie below the element
      cases answer with
      | stop => exact ⟨[⟨_, .stop⟩], .cons hVisit (.nil s'), visited_stop _ _⟩
      | skipChildren => exact ⟨[⟨_, .skipChildren⟩], .cons hVisit (.nil s'), visited_skip hAbove⟩
      | proceed =>
        obtain ⟨log, hAnswers, hVisited⟩ :=
          exists_visits_all visit cs position (ancestors ++ [node a cs]) 0 s'
        exact ⟨⟨_, .proceed⟩ :: log, .cons hVisit hAnswers, hVisited.cons hAbove⟩

/-- The walk over a list is told by the logs of its elements, one behind the other. -/
theorem exists_visits_all (visit : Visitor σ) : ∀ (es : List Element) (position : List Nat)
    (ancestors : List Element) (i : Nat) (s : σ), ∃ log,
    Answers visit s log (visitAll visit ancestors s es).1 ∧
      Visited (occurrencesIn position ancestors i es) log (visitAll visit ancestors s es).2
  | [], _, _, _, s => ⟨[], .nil s, [], [], rfl, rfl, rfl, by simp⟩
  | e :: rest, position, ancestors, i, s => by
    obtain ⟨log, hAnswers, hVisited⟩ := exists_visits_one visit e (position ++ [i]) ancestors s
    rw [visitAll, occurrencesIn]
    cases hOne : visitOne visit ancestors s e with
    | mk s' goes =>
      rw [hOne] at hAnswers hVisited
      cases goes with
      | false => exact ⟨log, hAnswers, hVisited.stopped⟩
      | true =>
        obtain ⟨more, hMore, hVisited'⟩ :=
          exists_visits_all visit rest position ancestors (i + 1) s'
        refine ⟨log ++ more, answers_append_iff.mpr ⟨s', hAnswers, hMore⟩, ?_⟩
        -- siblings and what lies in them are apart, so neither part hides places of the other
        exact hVisited.append hVisited' fun o ho p hp => not_isAbove_of_siblings ho hp

end

theorem exists_visits_walk (visit : Visitor σ) (s : σ) (roots : List Element) :
    ∃ log goes, Answers visit s log (walk visit s roots) ∧
      Visited (allOccurrences roots) log goes := by
  obtain ⟨log, hAnswers, hVisited⟩ := exists_visits_all visit roots [] [] 0 s
  exact ⟨log, _, hAnswers, hVisited⟩

end Walks

/-! ## Looking up -/

/-- The first place in document order of an element with an id. -/
def firstWith? (roots : List Element) (id : String) : Option Occurrence :=
  (allOccurrences roots).find? fun o => o.element.id = id

/-- The search for an id answers each element by its id alone and never passes over children. -/
theorem answer_of_answers_find {id : String} {s t : Option Found} {log : List Visit}
    (h : Answers (findVisitor id) s log t) :
    ∀ v ∈ log, v.answer = if v.occurrence.element.id = id then .stop else .proceed := by
  induction h with
  | nil => simp
  | @cons _ s' _ o answer log hVisit _ ih =>
    refine List.forall_mem_cons.mpr ⟨?_, ih⟩
    have hAnswer : (findVisitor id _ o.element o.ancestors).2 = answer := congrArg Prod.snd hVisit
    rw [findVisitor] at hAnswer
    show answer = if o.element.id = id then .stop else .proceed
    rw [← hAnswer]
    split <;> rfl

/-- As long as the search goes on it has found nothing. -/
theorem eq_of_answers_find {id : String} {s t : Option Found} {log : List Visit}
    (h : Answers (findVisitor id) s log t) (hGoes : ∀ v ∈ log, v.occurrence.element.id ≠ id) :
    t = s := by
  induction h with
  | nil => rfl
  | cons hVisit _ ih =>
    rw [List.forall_mem_cons] at hGoes
    rw [findVisitor, if_neg hGoes.1] at hVisit
    rw [ih hGoes.2]
    exact (congrArg Prod.fst hVisit).symm

/-- An id that no visited element has is not found. -/
theorem find?_visits_eq_none {id : String} {log : List Visit}
    (h : ∀ v ∈ log, v.occurrence.element.id ≠ id) :
    (log.map Visit.occurrence).find? (fun o => o.element.id = id) = none := by
  rw [List.find?_eq_none]
  intro o ho
  obtain ⟨v, hv, rfl⟩ := List.mem_map.mp ho
  rw [decide_eq_true_eq]
  exact h v hv

/-- Looking up an id finds the first place of an element with it. -/
theorem locate?_eq (roots : List Element) (id : String) :
    locate? roots id =
      (firstWith? roots id).map fun o => ⟨o.element, o.ancestors.getLast?⟩ := by
  obtain ⟨log, goes, hAnswers, reached, beyond, hPlaces, hLog, hEnds⟩ :=
    exists_visits_walk (findVisitor id) none roots
  have hAnswer := answer_of_answers_find hAnswers
  -- no children are passed over, so every place that is reached is visited
  have hReached : log.map Visit.occurrence = reached := by
    rw [hLog, List.filter_eq_self]
    intro o _
    rw [decide_eq_true_eq]
    intro v hv hSkip
    rw [hAnswer v hv] at hSkip
    split at hSkip <;> cases hSkip
  have hOther : ∀ v ∈ log, v.answer ≠ .stop → v.occurrence.element.id ≠ id := fun v hv hGoes hId =>
    hGoes (by rw [hAnswer v hv, if_pos hId])
  rw [locate?, firstWith?, hPlaces, ← hReached]
  cases goes with
  | true =>
    obtain ⟨rfl, hGoes⟩ := hEnds
    rw [eq_of_answers_find hAnswers fun v hv => hOther v hv (hGoes v hv), List.append_nil]
    rw [find?_visits_eq_none fun v hv => hOther v hv (hGoes v hv)]
    rfl
  | false =>
    obtain ⟨front, v, before, rfl, hStop, hFront, -⟩ := hEnds
    obtain ⟨m, hFirst, hLast⟩ := answers_append_iff.mp hAnswers
    have hId : v.occurrence.element.id = id := by
      have hLastAnswer := hAnswer v (List.mem_append_right _ List.mem_cons_self)
      rw [hStop] at hLastAnswer
      split at hLastAnswer
      · assumption
      · cases hLastAnswer
    have hMiss : ∀ u ∈ front, u.occurrence.element.id ≠ id := fun u hu =>
      hOther u (List.mem_append_left _ hu) (hFront u hu)
    have hFound : walk (findVisitor id) none roots =
        some ⟨v.occurrence.element, v.occurrence.ancestors.getLast?⟩ := by
      cases hLast with
      | cons hVisit hRest =>
        cases hRest
        rw [findVisitor, if_pos hId] at hVisit
        exact (congrArg Prod.fst hVisit).symm
    rw [hFound, List.map_append, List.append_assoc, List.find?_append, find?_visits_eq_none hMiss,
      Option.none_or,
      List.map_singleton, List.singleton_append, List.find?_cons_of_pos (by simpa using hId)]
    rfl

/-- No place of an element with the id is found exactly if there is none. -/
theorem firstWith?_eq_none_iff {roots : List Element} {id : String} :
    firstWith? roots id = none ↔ ∀ e ∈ documents roots, e.id ≠ id := by
  rw [firstWith?, List.find?_eq_none, ← map_element_allOccurrences, List.forall_mem_map]
  simp

/-- What stands in a forest is a root or stands under a parent, the last one of its ancestors. -/
theorem root_or_parent {roots : List Element} {o : Occurrence} (h : o ∈ allOccurrences roots) :
    o.ancestors = [] ∧ (∃ i, o.position = [i]) ∨
      ∃ parent ∈ allOccurrences roots, o.IsUnder (some parent) ∧
        o.ancestors.getLast? = some parent.element := by
  have hLeads := mem_allOccurrences_iff.mp h
  have hLength := hLeads.length_eq
  rw [Occurrence.path, List.length_append, List.length_singleton] at hLength
  obtain ⟨position, i, hPosition⟩ : ∃ position i, o.position = position ++ [i] :=
    ⟨_, _, (List.dropLast_concat_getLast (List.ne_nil_of_length_pos (by omega))).symm⟩
  -- the way without its last step leads to the parent, or is the empty one
  have hAround := hLeads.dropLast
  rw [hPosition, List.dropLast_concat, Occurrence.path, List.dropLast_concat] at hAround
  cases hLast : o.ancestors.getLast? with
  | none =>
    have hNil := List.getLast?_eq_none_iff.mp hLast
    rw [hNil] at hAround
    cases hAround
    exact .inl ⟨hNil, i, hPosition⟩
  | some e =>
    obtain ⟨ancestors, hAncestors⟩ := List.getLast?_eq_some_iff.mp hLast
    rw [hAncestors] at hAround
    exact .inr ⟨⟨position, ancestors, e⟩, mem_allOccurrences_iff.mpr hAround,
      ⟨hAncestors, i, hPosition⟩, rfl⟩

/-- The last element around a place is its parent. -/
theorem Occurrence.IsUnder.getLast? {o parent : Occurrence} (h : o.IsUnder (some parent)) :
    o.ancestors.getLast? = some parent.element := by
  have hAncestors : o.ancestors = parent.ancestors ++ [parent.element] := h.1
  rw [hAncestors, List.getLast?_concat]

/-- The parent of the first element with an id is found, if it has one. -/
theorem parentOf?_eq_some_iff {roots : List Element} {id : String} {e : Element} :
    parentOf? roots id = some e ↔ ∃ o parent, firstWith? roots id = some o ∧
      parent ∈ allOccurrences roots ∧ o.IsUnder (some parent) ∧ parent.element = e := by
  rw [parentOf?, locate?_eq, Option.bind_map, Option.bind_eq_some_iff]
  constructor
  · rintro ⟨o, hFirst, hParent⟩
    have hParent : o.ancestors.getLast? = some e := hParent
    obtain ⟨hNil, -⟩ | ⟨parent, hMem, hUnder, hLast⟩ :=
      root_or_parent (List.mem_of_find?_eq_some hFirst)
    · rw [hNil] at hParent
      cases hParent
    · rw [hParent, Option.some.injEq] at hLast
      exact ⟨o, parent, hFirst, hMem, hUnder, hLast.symm⟩
  · rintro ⟨o, parent, hFirst, -, hUnder, rfl⟩
    exact ⟨o, hFirst, hUnder.getLast?⟩

/-- No parent is found of an id that no element has, or whose first element is a root. -/
theorem parentOf?_eq_none_iff {roots : List Element} {id : String} :
    parentOf? roots id = none ↔ (∀ e ∈ documents roots, e.id ≠ id) ∨
      ∃ o i, firstWith? roots id = some o ∧ o.position = [i] := by
  rw [parentOf?, locate?_eq, Option.bind_map, ← firstWith?_eq_none_iff]
  cases hFirst : firstWith? roots id with
  | none => simp
  | some o =>
    have hParent : (some o).bind (Found.parent ∘ fun o => ⟨o.element, o.ancestors.getLast?⟩) =
      o.ancestors.getLast? := rfl
    rw [hParent, or_iff_right (by simp)]
    constructor
    · intro hNone
      obtain ⟨-, i, hRoot⟩ | ⟨parent, -, hUnder, -⟩ :=
        root_or_parent (List.mem_of_find?_eq_some hFirst)
      · exact ⟨o, i, rfl, hRoot⟩
      · rw [hUnder.getLast?] at hNone
        cases hNone
    · rintro ⟨o', i, hSame, hRoot⟩
      cases hSame
      obtain ⟨hNil, -⟩ | ⟨parent, hMem, ⟨-, j, hPosition⟩, -⟩ :=
        root_or_parent (List.mem_of_find?_eq_some hFirst)
      · rw [hNil]
        rfl
      · -- a place under a parent has at least two indices
        have hLength := (mem_allOccurrences_iff.mp hMem).length_eq
        have hIndices := congrArg List.length (hRoot.symm.trans hPosition)
        simp only [Occurrence.path, List.length_append, List.length_singleton, Option.map_some,
          Option.getD_some] at hLength hIndices
        omega

/-- **A walk goes through a forest in document order.** The places of the forest are those that
indices lead to from the roots, and they are listed in the order of these. For every visitor the
walk visits the places up to the first one where it is stopped, or all, but for those below an
element whose children the visitor passes over: each of them once, in their order, with the elements
around it, the root first, and with the state that the visit before has left. So an id is looked up
where it stands first, with the parent that it has there; no parent is found exactly if the id is
nowhere or first at a root. -/
theorem walk_in_document_order {σ : Type} (visit : Visitor σ) (s : σ) (roots : List Element) :
    (∀ o, o ∈ allOccurrences roots ↔ Leads roots o.position o.path) ∧
    (allOccurrences roots).Pairwise Occurrence.Before ∧
    (∃ log reached beyond goes, Answers visit s log (walk visit s roots) ∧
      allOccurrences roots = reached ++ beyond ∧
      log.map Visit.occurrence = reached.filter (Clear log) ∧ Ends log reached beyond goes) ∧
    ∀ id, find? roots id = (firstWith? roots id).map Occurrence.element ∧
      (∀ e, parentOf? roots id = some e ↔ ∃ o parent, firstWith? roots id = some o ∧
        parent ∈ allOccurrences roots ∧ o.IsUnder (some parent) ∧ parent.element = e) ∧
      (parentOf? roots id = none ↔ (∀ e ∈ documents roots, e.id ≠ id) ∨
        ∃ o i, firstWith? roots id = some o ∧ o.position = [i]) := by
  refine ⟨fun o => mem_allOccurrences_iff, pairwise_position_allOccurrences roots, ?_, ?_⟩
  · obtain ⟨log, goes, hAnswers, reached, beyond, hPlaces, hLog, hEnds⟩ :=
      exists_visits_walk visit s roots
    exact ⟨log, reached, beyond, goes, hAnswers, hPlaces, hLog, hEnds⟩
  · intro id
    refine ⟨?_, fun e => parentOf?_eq_some_iff, parentOf?_eq_none_iff⟩
    -- the search stops at the first with the id, which is what `firstWith?` lists
    rw [find?, locate?_eq, Option.map_map]
    rfl

end Onboarding.Element
