import Onboarding.Proofs.Change.Insertion
import Onboarding.Proofs.Element.Occurrence

/-!
# Onboarding — where the elements of a merged forest come from

A merge keeps some occurrences of the forest and takes others in as they stand
in the changes. A `Traced` element is an element of the result together with
that origin: it is kept, with the occurrence it was, or it is a copy. An
occurrence survives when no change removes it or an element around it, and no
change replaces the children of a container around it.

## Results

* `rewritten_foldl_edit` — what the changes of an element make of its attributes.
* `exists_traced_merge` — the kept elements of a merged forest are the surviving
  occurrences, each once, in document order and under its old parent; everything
  else is a copy out of a change.
-/

namespace Onboarding.Change

open Element (Occurrence occurrences occurrencesIn allOccurrences)

/-! ## Survival -/

/-- Whether some change removes the element. -/
def removes (changes : List Change) (e : Element) : Bool :=
  changes.any fun c => decide (c.id = some e.id) && c.remove

/-- Whether some change replaces the children of the element, which is a container. -/
def replaces (changes : List Change) (e : Element) : Bool :=
  e.kind.holdsChildren && changes.any fun c => decide (c.id = some e.id) && c.children.isSome

/-- Whether the occurrence survives the changes. -/
def survives (changes : List Change) (o : Occurrence) : Bool :=
  o.path.all (fun e => !removes changes e) && o.ancestors.all (fun e => !replaces changes e)

/-- The occurrences of a forest that survive the changes, in document order. -/
def survivors (changes : List Change) (roots : List Element) : List Occurrence :=
  (allOccurrences roots).filter (survives changes)

/-! ## Attributes -/

section Attributes

variable {α : Type}

/-- What the last of the changes that name the id and give something gives. -/
def given (f : Change → Option α) (id : String) (changes : List Change) : Option α :=
  ((targeting id changes).filterMap f).getLast?

/-- The second attributes are the first ones after the changes that name their id. -/
structure Rewritten (changes : List Change) (old new : Attributes) : Prop where
  id : new.id = old.id
  kind : new.kind = old.kind
  position : new.position = old.position
  style : ∀ key, new.style.get? key =
    (given (fun c => c.style.bind (·.get? key)) old.id changes).or (old.style.get? key)
  props : ∀ key, new.props.get? key =
    (given (fun c => c.props.bind (·.get? key)) old.id changes).or (old.props.get? key)
  action : new.action = (given Change.action old.id changes).or old.action
  actions : new.actions = (given Change.actions old.id changes).or old.actions
  gate : new.gate = (given Change.gate old.id changes).or old.gate
  showRule : new.showRule = (given Change.showRule old.id changes).or old.showRule
  entrance : new.entrance = (given Change.entrance old.id changes).or old.entrance
  textAnimation : new.textAnimation =
    (given Change.textAnimation old.id changes).or old.textAnimation
  interactive : new.interactive = (given Change.interactive old.id changes).or old.interactive

/-- An attribute that every change writes over or leaves is what the last change gives, or what it
was. -/
theorem foldl_edit {f : Change → Option α} {g : Attributes → Option α}
    (hEdit : ∀ c a, g (c.edit a) = (f c).or (g a)) (own : List Change) (a : Attributes) :
    g (own.foldl (fun a c => c.edit a) a) = ((own.filterMap f).getLast?).or (g a) := by
  induction own generalizing a with
  | nil => rfl
  | cons c own ih =>
    rw [List.foldl_cons, ih, hEdit, List.filterMap_cons]
    cases hGiven : f c with
    | none => rfl
    | some x =>
      -- what the first change gives counts only if no later one gives anything
      rw [List.getLast?_cons]
      cases (own.filterMap f).getLast? <;> rfl

/-- An attribute that no change touches stays. -/
theorem foldl_edit_same {g : Attributes → α} (hEdit : ∀ c a, g (Change.edit c a) = g a)
    (own : List Change) (a : Attributes) :
    g (own.foldl (fun a c => c.edit a) a) = g a := by
  induction own generalizing a with
  | nil => rfl
  | cons c own ih => rw [List.foldl_cons, ih, hEdit]

/-- A style that a change writes comes before the old one. -/
theorem get?_edit_style (key : String) (c : Change) (a : Attributes) :
    (c.edit a).style.get? key = (c.style.bind (·.get? key)).or (a.style.get? key) := by
  rw [edit]
  cases c.style with
  | none => rfl
  | some more => exact Table.get?_extend a.style more key

/-- A property that a change writes comes before the old one. -/
theorem get?_edit_props (key : String) (c : Change) (a : Attributes) :
    (c.edit a).props.get? key = (c.props.bind (·.get? key)).or (a.props.get? key) := by
  rw [edit]
  cases c.props with
  | none => rfl
  | some more => exact Table.get?_extend a.props more key

/-- The changes of an element, made in turn, rewrite its attributes. -/
theorem rewritten_foldl_edit (changes : List Change) (a : Attributes) :
    Rewritten changes a ((targeting a.id changes).foldl (fun a c => c.edit a) a) where
  id := foldl_edit_same (fun _ _ => rfl) _ a
  kind := foldl_edit_same (fun _ _ => rfl) _ a
  position := foldl_edit_same (fun _ _ => rfl) _ a
  style key := foldl_edit (g := fun a => a.style.get? key) (get?_edit_style key) _ a
  props key := foldl_edit (g := fun a => a.props.get? key) (get?_edit_props key) _ a
  action := foldl_edit (fun _ _ => rfl) _ a
  actions := foldl_edit (fun _ _ => rfl) _ a
  gate := foldl_edit (fun _ _ => rfl) _ a
  showRule := foldl_edit (fun _ _ => rfl) _ a
  entrance := foldl_edit (fun _ _ => rfl) _ a
  textAnimation := foldl_edit (fun _ _ => rfl) _ a
  interactive := foldl_edit (fun _ _ => rfl) _ a

end Attributes

/-! ## Traced elements -/

/-- An element of a merged forest with its origin. -/
inductive Traced where
  /-- What has become of an occurrence. -/
  | kept (source : Occurrence) (attributes : Attributes) (children : List Traced)
  /-- An element that stands in a change, with everything inside. -/
  | copy (element : Element)

namespace Traced

mutual

/-- The element without its origin. -/
def forget : Traced → Element
  | kept _ a ts => .node a (forgetAll ts)
  | copy e => e

/-- `forget` of every element. -/
def forgetAll : List Traced → List Element
  | [] => []
  | t :: ts => forget t :: forgetAll ts

end

mutual

/-- The occurrences that are kept in the element, in document order. -/
def sources : Traced → List Occurrence
  | kept o _ ts => o :: sourcesOf ts
  | copy _ => []

/-- The occurrences that are kept in the elements. -/
def sourcesOf : List Traced → List Occurrence
  | [] => []
  | t :: ts => sources t ++ sourcesOf ts

end

theorem forgetAll_append (ts us : List Traced) :
    forgetAll (ts ++ us) = forgetAll ts ++ forgetAll us := by
  induction ts with
  | nil => rfl
  | cons t ts ih => rw [List.cons_append, forgetAll, ih, forgetAll, List.cons_append]

theorem sourcesOf_append (ts us : List Traced) :
    sourcesOf (ts ++ us) = sourcesOf ts ++ sourcesOf us := by
  induction ts with
  | nil => rfl
  | cons t ts ih => rw [List.cons_append, sourcesOf, ih, sourcesOf, List.append_assoc]

theorem forgetAll_copies (es : List Element) : forgetAll (es.map copy) = es := by
  induction es with
  | nil => rfl
  | cons e es ih => rw [List.map_cons, forgetAll, ih, forget]

theorem sourcesOf_copies (es : List Element) : sourcesOf (es.map copy) = [] := by
  induction es with
  | nil => rfl
  | cons e es ih => rw [List.map_cons, sourcesOf, ih, sources, List.append_nil]

end Traced

/-- How an element comes to stand directly below an occurrence, or among the roots: it stood there
before, a change inserts it there, or the last change that replaces the children there has it. -/
inductive Derived (changes : List Change) : Option Occurrence → Traced → Prop where
  | kept {parent : Option Occurrence} {o : Occurrence} {a : Attributes} {ts : List Traced} :
    o.IsUnder parent → Rewritten changes o.element.attributes a →
    (∀ t ∈ ts, Derived changes (some o) t) → Derived changes parent (.kept o a ts)
  | inserted {parent : Option Occurrence} {c : Change} {e : Element} :
    c ∈ changes → c.id = parent.map (fun o => o.element.id) →
    (∀ o ∈ parent, o.element.kind.holdsChildren = true) →
    c.insertedElement = some e → Derived changes parent (.copy e)
  | replacement {o : Occurrence} {es : List Element} {e : Element} :
    o.element.kind.holdsChildren = true → given Change.children o.element.id changes = some es →
    e ∈ es → Derived changes (some o) (.copy e)

/-! ## Traces -/

/-- The traced elements trace the elements below an occurrence, or among the roots, and keep these
occurrences. -/
structure Traces (changes : List Change) (parent : Option Occurrence) (kept : List Occurrence)
    (es : List Element) (ts : List Traced) : Prop where
  forget : Traced.forgetAll ts = es
  sources : Traced.sourcesOf ts = kept
  derived : ∀ t ∈ ts, Derived changes parent t

namespace Traces

variable {changes : List Change} {parent : Option Occurrence}

/-- Nothing survives of nothing. -/
theorem nil : Traces changes parent [] [] [] where
  forget := rfl
  sources := rfl
  derived _ h := absurd h List.not_mem_nil

/-- Traces of two stretches make a trace of both. -/
theorem append {kept more : List Occurrence} {es fs : List Element} {ts us : List Traced}
    (hFirst : Traces changes parent kept es ts) (hSecond : Traces changes parent more fs us) :
    Traces changes parent (kept ++ more) (es ++ fs) (ts ++ us) where
  forget := by rw [Traced.forgetAll_append, hFirst.forget, hSecond.forget]
  sources := by rw [Traced.sourcesOf_append, hFirst.sources, hSecond.sources]
  derived t h := by
    rcases List.mem_append.mp h with h | h
    · exact hFirst.derived t h
    · exact hSecond.derived t h

/-- Elements that stand in the changes are traced as copies. -/
theorem copies {es : List Element} (h : ∀ e ∈ es, Derived changes parent (.copy e)) :
    Traces changes parent [] es (es.map .copy) where
  forget := Traced.forgetAll_copies es
  sources := Traced.sourcesOf_copies es
  derived t ht := by
    obtain ⟨e, he, rfl⟩ := List.mem_map.mp ht
    exact h e he

/-- What is inserted between traced elements is traced as copies between them. -/
theorem interleave {P : Element → Prop} (hP : ∀ e, P e → Derived changes parent (.copy e))
    {xs ys : List Element} (h : Interleaved P xs ys) {kept : List Occurrence} {ts : List Traced}
    (hTraces : Traces changes parent kept xs ts) :
    ∃ us, Traces changes parent kept ys us := by
  -- by induction on how the elements lie between the siblings; kept siblings keep their trace
  induction h generalizing kept ts with
  | nil => exact ⟨ts, hTraces⟩
  | @add e _ _ he _ ih =>
    obtain ⟨us, hRest⟩ := ih hTraces
    have hCopy : Traces changes parent [] [e] ([e].map .copy) := copies fun x hx => by
      rw [List.mem_singleton.mp hx]
      exact hP e he
    exact ⟨.copy e :: us, hCopy.append hRest⟩
  | keep e _ ih =>
    cases ts with
    | nil => exact absurd hTraces.forget (by simp [Traced.forgetAll])
    | cons t ts =>
      obtain ⟨hForget, hSources, hDerived⟩ := hTraces
      rw [Traced.forgetAll, List.cons.injEq] at hForget
      have hTail : Traces changes parent (Traced.sourcesOf ts) _ ts :=
        ⟨hForget.2, rfl, fun u hu => hDerived u (List.mem_cons_of_mem _ hu)⟩
      obtain ⟨us, hRest⟩ := ih hTail
      refine ⟨t :: us, ?_, ?_, ?_⟩
      · rw [Traced.forgetAll, hForget.1, hRest.forget]
      · rw [Traced.sourcesOf, hRest.sources, ← hSources, Traced.sourcesOf]
      · rintro u hu
        rcases List.mem_cons.mp hu with rfl | hu
        · exact hDerived u List.mem_cons_self
        · exact hRest.derived u hu

end Traces

/-! ## Merging -/

section Merging

variable {changes : List Change}

/-- What holds of one of the changes of an element holds of one that names it. -/
theorem any_targeting (p : Change → Bool) (id : String) :
    (targeting id changes).any p = changes.any fun c => decide (c.id = some id) && p c := by
  rw [targeting, List.any_filter]

/-- The changes of an element are those that name it. -/
theorem mem_targeting {id : String} {c : Change} :
    c ∈ targeting id changes ↔ c ∈ changes ∧ c.id = some id := by
  rw [targeting, List.mem_filter, decide_eq_true_eq]

/-- An element is removed if one of its own changes says so. -/
theorem removes_eq (e : Element) :
    removes changes e = (targeting e.id changes).any Change.remove :=
  (any_targeting Change.remove e.id).symm

/-- Children are replaced exactly if some change gives children. -/
theorem replaces_eq (e : Element) : replaces changes e =
    (e.kind.holdsChildren && (given Change.children e.id changes).isSome) := by
  rw [replaces, ← any_targeting (fun c => c.children.isSome), given]
  congr 1
  rw [Bool.eq_iff_iff, List.getLast?_isSome, ne_eq, List.filterMap_eq_nil_iff]
  simp [Option.isSome_iff_ne_none]

/-- What is inserted is the element of one of the changes. -/
theorem mem_insertions {own : List Change} {e : Element} (h : e ∈ (insertions own).map Prod.fst) :
    ∃ c ∈ own, c.insertedElement = some e := by
  obtain ⟨i, hi, rfl⟩ := List.mem_map.mp h
  obtain ⟨c, hc, hInsertion⟩ := List.mem_filterMap.mp hi
  obtain ⟨e, he, rfl⟩ := Option.map_eq_some_iff.mp hInsertion
  exact ⟨c, hc, he⟩

/-- Of the first element comes nothing or one element, and the others follow. -/
theorem mergeAll_cons (changes : List Change) (e : Element) (rest : List Element) :
    mergeAll changes (e :: rest) = (mergeNode changes e).toList ++ mergeAll changes rest := by
  rw [mergeAll]
  cases mergeNode changes e <;> rfl

/-- Nothing inside a removed element survives, and neither does the element. -/
theorem filter_removed {e : Element} (hRemoves : removes changes e = true) (position : List Nat)
    (ancestors : List Element) :
    (occurrences position ancestors e).filter (survives changes) = [] := by
  rw [List.filter_eq_nil_iff]
  intro o ho hSurvives
  -- the removed element is the occurrence itself or around it
  obtain ⟨hPath, -⟩ := Element.path_of_mem_occurrences e ho
  have hMem : e ∈ o.path := hPath.subset (List.mem_append_right _ List.mem_cons_self)
  rw [survives, Bool.and_eq_true, List.all_eq_true] at hSurvives
  have hKept := hSurvives.1 e hMem
  rw [hRemoves] at hKept
  exact absurd hKept (by decide)

/-- Nothing inside an element whose children are replaced survives. -/
theorem filter_replaced {e : Element} (hReplaces : replaces changes e = true)
    (position : List Nat) (ancestors : List Element) (i : Nat) (es : List Element) :
    (occurrencesIn position (ancestors ++ [e]) i es).filter (survives changes) = [] := by
  rw [List.filter_eq_nil_iff]
  intro o ho hSurvives
  -- the element whose children are replaced is a proper ancestor
  obtain ⟨hAncestors, -⟩ := Element.path_of_mem_occurrencesIn es ho
  have hMem : e ∈ o.ancestors := hAncestors.subset (List.mem_append_right _ List.mem_cons_self)
  rw [survives, Bool.and_eq_true, List.all_eq_true, List.all_eq_true] at hSurvives
  have hKept := hSurvives.2 e hMem
  rw [hReplaces] at hKept
  exact absurd hKept (by decide)

/-- Where a survivor can stand: no change removes an element around it or replaces its children. -/
def Open (changes : List Change) (ancestors : List Element) : Prop :=
  ∀ e ∈ ancestors, removes changes e = false ∧ replaces changes e = false

/-- Where a survivor can stand it can stand deeper, past an element that is kept. -/
theorem Open.append {ancestors : List Element} (h : Open changes ancestors) {e : Element}
    (hRemoves : removes changes e = false) (hReplaces : replaces changes e = false) :
    Open changes (ancestors ++ [e]) := by
  intro x hx
  rw [List.mem_append, List.mem_singleton] at hx
  rcases hx with hx | rfl
  · exact h x hx
  · exact ⟨hRemoves, hReplaces⟩

/-- What stands there and is not removed survives. -/
theorem survives_of_open {o : Occurrence} (hOpen : Open changes o.ancestors)
    (hRemoves : removes changes o.element = false) : survives changes o = true := by
  rw [survives, Bool.and_eq_true, List.all_eq_true, List.all_eq_true]
  constructor
  · intro e he
    rw [Occurrence.path, List.mem_append, List.mem_singleton] at he
    rcases he with he | rfl
    · rw [(hOpen e he).1]
      rfl
    · rw [hRemoves]
      rfl
  · intro e he
    rw [(hOpen e he).2]
    rfl

/-- What is inserted below an element that stays is traced as copies. -/
theorem Traces.insert {o : Occurrence} {kept : List Occurrence} {es : List Element}
    {ts : List Traced} (h : Traces changes (some o) kept es ts)
    (hKind : o.element.kind.holdsChildren = true) :
    ∃ us, Traces changes (some o) kept
      (insertInto es (insertions (targeting o.element.id changes))) us := by
  refine h.interleave (fun e he => ?_) (interleaved_insertInto es _)
  obtain ⟨c, hc, hElement⟩ := mem_insertions he
  obtain ⟨hMem, hId⟩ := mem_targeting.mp hc
  refine .inserted hMem hId (fun p hp => ?_) hElement
  obtain rfl := Option.some.inj hp
  exact hKind

/-- An element that stays is traced by what is traced below it. -/
theorem Traces.node {parent : Option Occurrence} {o : Occurrence} {a : Attributes}
    {cs es : List Element} {us : List Traced} (hElement : o.element = .node a cs)
    (hUnder : o.IsUnder parent) (hOpen : Open changes o.ancestors)
    (hRemoves : removes changes o.element = false)
    (h : Traces changes (some o)
      ((occurrencesIn o.position o.path 0 cs).filter (survives changes)) es us) :
    Traces changes parent
      ((occurrences o.position o.ancestors o.element).filter (survives changes))
      [.node ((targeting a.id changes).foldl (fun a c => c.edit a) a) es]
      [.kept o ((targeting a.id changes).foldl (fun a c => c.edit a) a) us] := by
  obtain ⟨hForget, hSources, hDerived⟩ := h
  -- the occurrence stands in front of those below it and survives as they do
  have hSelf : o = ⟨o.position, o.ancestors, .node a cs⟩ := by rw [← hElement]
  have hSurvives := survives_of_open hOpen hRemoves
  refine ⟨?_, ?_, ?_⟩
  · rw [Traced.forgetAll, Traced.forget, hForget, Traced.forgetAll]
  · rw [hElement, occurrences, ← hSelf, ← hElement, List.filter_cons_of_pos hSurvives,
      Traced.sourcesOf, Traced.sources, hSources, Traced.sourcesOf, List.append_nil]
    rfl
  · intro t ht
    rw [List.mem_singleton] at ht
    subst ht
    have hRewritten := rewritten_foldl_edit changes a
    have hAttributes : o.element.attributes = a := by rw [hElement]; rfl
    exact .kept hUnder (hAttributes ▸ hRewritten) hDerived

mutual

/-- An element is traced by what is merged into it. -/
theorem exists_traced_mergeNode : ∀ (e : Element) {parent : Option Occurrence} {i : Nat},
    Open changes ((parent.map Occurrence.path).getD []) →
    ∃ ts, Traces changes parent
      ((occurrences ((parent.map Occurrence.position).getD [] ++ [i])
        ((parent.map Occurrence.path).getD []) e).filter (survives changes))
      (mergeNode changes e).toList ts
  | .node a cs, parent, i, hOpen => by
    let o : Occurrence := ⟨(parent.map Occurrence.position).getD [] ++ [i],
      (parent.map Occurrence.path).getD [], .node a cs⟩
    have hUnder : o.IsUnder parent := ⟨rfl, i, rfl⟩
    have hRemove : removes changes o.element = (targeting a.id changes).any Change.remove :=
      removes_eq o.element
    have hReplace : replaces changes o.element =
        (a.kind.holdsChildren && (given Change.children a.id changes).isSome) :=
      replaces_eq o.element
    cases hRemoves : removes changes o.element with
    | true =>
      -- the element goes with everything inside, and nothing inside survives
      have hMerged : mergeNode changes (.node a cs) = none := by
        rw [mergeNode, ← hRemove, hRemoves]
        rfl
      rw [filter_removed hRemoves, hMerged]
      exact ⟨[], .nil⟩
    | false =>
      rw [mergeNode, ← hRemove, hRemoves]
      -- without a replacement the children are merged below the element
      have hMerged (hNot : replaces changes o.element = false) :=
        exists_traced_mergeAll cs (some o) 0 (hOpen.append hRemoves hNot)
      cases hKind : a.kind.holdsChildren with
      | false =>
        -- what is no container keeps its children and takes nothing in
        obtain ⟨us, hUs⟩ := hMerged (by rw [hReplace, hKind]; rfl)
        exact ⟨_, hUs.node rfl hUnder hOpen hRemoves⟩
      | true =>
        cases hGiven : given Change.children a.id changes with
        | some es =>
          -- the replaced children are copies, and no old child survives
          have hCopies : Traces changes (some o) [] es (es.map .copy) :=
            .copies fun e he => .replacement hKind hGiven he
          obtain ⟨us, hUs⟩ := hCopies.insert hKind
          have hReplaces : replaces changes o.element = true := by
            rw [hReplace, hKind, hGiven]
            rfl
          rw [← filter_replaced hReplaces o.position o.ancestors 0 cs] at hUs
          rw [show replacement (targeting a.id changes) = some es from hGiven]
          exact ⟨_, hUs.node rfl hUnder hOpen hRemoves⟩
        | none =>
          obtain ⟨ts, hTs⟩ := hMerged (by rw [hReplace, hKind, hGiven]; rfl)
          obtain ⟨us, hUs⟩ := hTs.insert hKind
          rw [show replacement (targeting a.id changes) = none from hGiven]
          exact ⟨_, hUs.node rfl hUnder hOpen hRemoves⟩

/-- A merged list has traces that hold its survivors, whatever stands around it. -/
theorem exists_traced_mergeAll : ∀ (es : List Element) (parent : Option Occurrence) (i : Nat),
    Open changes ((parent.map Occurrence.path).getD []) →
    ∃ ts, Traces changes parent
      ((occurrencesIn ((parent.map Occurrence.position).getD [])
        ((parent.map Occurrence.path).getD []) i es).filter (survives changes))
      (mergeAll changes es) ts
  | [], _, _, _ => ⟨[], .nil⟩
  | e :: rest, parent, i, hOpen => by
    obtain ⟨ts, hFirst⟩ := exists_traced_mergeNode e (i := i) hOpen
    obtain ⟨us, hRest⟩ := exists_traced_mergeAll rest parent (i + 1) hOpen
    rw [occurrencesIn, List.filter_append, mergeAll_cons]
    exact ⟨ts ++ us, hFirst.append hRest⟩

end

end Merging

/-- The elements of a merged forest can be traced back: leaving out the copies that stand in the
changes, they are the occurrences that survive, each of them once, in document order, under its old
parent and with its attributes rewritten by the changes that name it. -/
theorem exists_traced_merge (roots : List Element) (changes : List Change) :
    ∃ ts : List Traced,
      Traced.forgetAll ts = merge roots changes ∧
      Traced.sourcesOf ts = survivors changes roots ∧
      ((Traced.sourcesOf ts).map Occurrence.position).Nodup ∧
      ∀ t ∈ ts, Derived changes none t := by
  have hOpen : Open changes ((Option.map Occurrence.path none).getD []) :=
    fun e he => absurd he List.not_mem_nil
  obtain ⟨us, hUs⟩ := exists_traced_mergeAll roots none 0 hOpen
  -- among the roots only changes that name no element insert anything
  have hInserted (e : Element) (he : e ∈ (insertions (untargeted changes)).map Prod.fst) :
      Derived changes none (.copy e) := by
    obtain ⟨c, hc, hElement⟩ := mem_insertions he
    rw [untargeted, List.mem_filter, decide_eq_true_eq] at hc
    exact .inserted hc.1 hc.2 (fun o ho => by simp at ho) hElement
  obtain ⟨ts, hForget, hSources, hDerived⟩ := hUs.interleave hInserted
    (interleaved_insertInto (mergeAll changes roots) (insertions (untargeted changes)))
  refine ⟨ts, hForget, hSources, ?_, hDerived⟩
  rw [hSources]
  exact (Element.nodup_position_allOccurrences roots).sublist
    (List.filter_sublist.map Occurrence.position)

end Onboarding.Change
