import Onboarding.Destination.Wire
import Onboarding.Proofs.Wire.Fields

/-!
# Onboarding — conditions and destinations that are written and read again

A condition is written with the one field, or the two or three, that decide what
it is, and none of the others stands in their way when it is read again. A branch
has no routes, so that what is written of it is not taken for a table of routes.

Both nest, so that the proofs are by recursion on the document that is read.

## Results

* `Condition.kept` — a condition that is read is read again.
* `Destination.kept` — a destination that is read is read again.
-/

namespace Onboarding

/-- The operator of a name is named so. -/
theorem Operator.name_ofName (s : String) : (ofName s).name = s := by
  unfold ofName
  split <;> rfl

namespace Condition

theorem toJsons_eq (parts : List Condition) : toJsons parts = parts.map toJson := by
  induction parts with
  | nil => rfl
  | cons part rest ih => rw [toJsons, ih, List.map_cons]

/-- The fields that a condition is written with. -/
def slots : Condition → List (String × Option Json)
  | leaf name operator value =>
    [("variable", some (.string name)), ("operator", some (.string operator.name)),
      ("value", value)]
  | all parts => [("all", some (.array (parts.map toJson)))]
  | any parts => [("any", some (.array (parts.map toJson)))]
  | not part => [("not", some (toJson part))]

theorem toDocument_toJson (c : Condition) :
    c.toJson.toDocument = .object (Members.written c.slots) := by
  rw [← Members.toDocument_present]
  cases c with
  | leaf name operator value => cases value <;> rfl
  | all parts => rw [toJson, toJsons_eq]; rfl
  | any parts => rw [toJson, toJsons_eq]; rfl
  | not part => rw [toJson]; rfl

theorem nodup_slots (c : Condition) : (c.slots.map Prod.fst).Nodup := by
  cases c <;> simp [slots]

/-- A written condition is assembled of its fields. -/
theorem ofDocument?_toJson (c : Condition) : ofDocument? c.toJson.toDocument =
    assemble (Members.written c.slots)
      (Members.optional (Members.written c.slots) "all" (Document.list? ofDocument?))
      (Members.optional (Members.written c.slots) "any" (Document.list? ofDocument?))
      (Members.optional (Members.written c.slots) "not" ofDocument?) := by
  rw [ofDocument?_eq, toDocument_toJson, Members.record?_written c.nodup_slots]
  rfl

section Fields

variable {c : Condition} {key : String} {β : Type} {read : Document → Option β}

/-- A field that a condition is not written with is missing. -/
theorem optional_slots_eq_none (h : (Entries.get? key c.slots).getD none = none) :
    Members.optional (Members.written c.slots) key read = some none :=
  Members.optional_eq_none (by rw [Members.find?_written c.nodup_slots, h]; rfl)

/-- A field that a condition is written with is read, unless it is `null`. -/
theorem optional_slots_eq_some {v : Json} {x : β}
    (h : (Entries.get? key c.slots).getD none = some v) (hNull : v.toDocument.isNull = false)
    (hRead : read v.toDocument = some x) :
    Members.optional (Members.written c.slots) key read = some (some x) :=
  Members.optional_eq_some_some.mpr
    ⟨_, by rw [Members.find?_written c.nodup_slots, h]; rfl, hNull, hRead⟩

end Fields

/-- A condition that is read is read again from what is written of it. -/
theorem kept (d : Document) : KeptAt ofDocument? ofDocument? toJson d := by
  intro c hRead
  rw [ofDocument?_eq] at hRead
  obtain ⟨ms, hRecord, hRead⟩ := Option.bind_eq_some_iff.mp hRead
  -- by recursion on the document: its fields and their items are smaller
  have hSmaller (part : Document) (h : sizeOf part < sizeOf d) :
      KeptAt ofDocument? ofDocument? toJson part := kept part
  have hPart (name : String) (part : Document) (hFind : ms.find? name = some part) :
      KeptAt ofDocument? ofDocument? toJson part :=
    hSmaller part (Members.sizeOf_lt_of_find? hRecord hFind)
  have hParts (name : String) (part : Document) (hFind : ms.find? name = some part) :
      KeptAt (Document.list? ofDocument?) (Document.list? ofDocument?)
        (fun xs => .array (xs.map toJson)) part := by
    have hLess := Members.sizeOf_lt_of_find? hRecord hFind
    exact keptAt_list? fun item hItem => hSmaller item (Nat.lt_trans hItem hLess)
  simp only [assemble, Option.bind_eq_bind, Option.bind_eq_some_iff] at hRead
  obtain ⟨name, hName, operator, hOperator, value, hValue, allOf, hAll, anyOf, hAny, notOf, hNot,
    hCase⟩ := hRead
  have hFind (key : String) := Members.find?_written c.nodup_slots key
  rw [ofDocument?_toJson]
  -- the fields of what was read are read again, and the others are missing
  split at hCase
  · cases hCase
    have hAgain := Members.optional_kept hAll (hParts "all") rfl (hFind "all")
    rw [assemble, optional_slots_eq_none rfl, optional_slots_eq_none rfl,
      optional_slots_eq_none rfl, hAgain, optional_slots_eq_none rfl, optional_slots_eq_none rfl]
    rfl
  · cases hCase
    have hAgain := Members.optional_kept hAny (hParts "any") rfl (hFind "any")
    rw [assemble, optional_slots_eq_none rfl, optional_slots_eq_none rfl,
      optional_slots_eq_none rfl, optional_slots_eq_none rfl, hAgain, optional_slots_eq_none rfl]
    rfl
  · cases hCase
    have hAgain := Members.optional_kept hNot (hPart "not") (by simp [ofDocument?]) (hFind "not")
    rw [assemble, optional_slots_eq_none rfl, optional_slots_eq_none rfl,
      optional_slots_eq_none rfl, optional_slots_eq_none rfl, optional_slots_eq_none rfl, hAgain]
    rfl
  · next name operator =>
    cases hCase
    have hValue := Members.optional_toJson?_kept hValue (hFind "value")
    have hName := Members.optional_kept hName (fun d _ => keptAt_toString? d) rfl (hFind "variable")
    -- an operator that is not known keeps the name it was read from
    have hOperator := Members.optional_kept hOperator (fun d _ => keptAt_toString? d) rfl (by
      rw [← Operator.name_ofName operator]
      exact hFind "operator")
    rw [assemble, hName, hOperator, hValue, optional_slots_eq_none rfl, optional_slots_eq_none rfl,
      optional_slots_eq_none rfl]
    rfl
  · cases hCase
termination_by sizeOf d

end Condition

namespace Destination

/-- The JSON of a route. -/
def routeToJson (route : Condition × Destination) : Json :=
  .object [("condition", route.1.toJson), ("destination", toJson route.2)]

theorem routesToJson_eq (routes : List (Condition × Destination)) :
    routesToJson routes = routes.map routeToJson := by
  induction routes with
  | nil => rfl
  | cons route rest ih => rw [routesToJson, ih, List.map_cons, routeToJson]

/-- The fields that a destination is written with, if it depends on something. -/
def slots : Destination → List (String × Option Json)
  | literal _ => []
  | routed routes fallback =>
    [("routes", some (.array (routes.map routeToJson))), ("default", some (toJson fallback))]
  | branch condition target otherwise =>
    [("if", some condition.toJson), ("then", some (toJson target)),
      ("else", otherwise.map toJson)]

theorem nodup_slots (destination : Destination) : (destination.slots.map Prod.fst).Nodup := by
  cases destination <;> simp [slots]

theorem toDocument_routed (routes : List (Condition × Destination)) (fallback : Destination) :
    (toJson (routed routes fallback)).toDocument =
      .object (Members.written (routed routes fallback).slots) := by
  rw [← Members.toDocument_present, toJson, routesToJson_eq]
  rfl

theorem toDocument_branch (condition : Condition) (target : Destination)
    (otherwise : Option Destination) :
    (toJson (branch condition target otherwise)).toDocument =
      .object (Members.written (branch condition target otherwise).slots) := by
  rw [← Members.toDocument_present]
  cases otherwise with
  | none => rw [toJson]; rfl
  | some otherwise => rw [toJson]; rfl

/-- The fields that a route is written with. -/
def routeSlots (route : Condition × Destination) : List (String × Option Json) :=
  [("condition", some route.1.toJson), ("destination", some (toJson route.2))]

theorem nodup_routeSlots (route : Condition × Destination) :
    ((routeSlots route).map Prod.fst).Nodup := by
  simp [routeSlots]

theorem toDocument_routeToJson (route : Condition × Destination) :
    (routeToJson route).toDocument = .object (Members.written (routeSlots route)) := by
  rw [← Members.toDocument_present]
  rfl

/-- A route is read again if its destination is. -/
theorem keptAt_route? {d : Document}
    (h : ∀ part, sizeOf part < sizeOf d → KeptAt ofReadable? ofReadable? toJson part) :
    KeptAt route? route? routeToJson d := by
  intro route hRead
  rw [route?_eq] at hRead
  obtain ⟨ms, hRecord, hRead⟩ := Option.bind_eq_some_iff.mp hRead
  obtain ⟨condition, hCondition, hRead⟩ := Option.bind_eq_some_iff.mp hRead
  obtain ⟨destination, hDestination, rfl⟩ := Option.map_eq_some_iff.mp hRead
  have hFind (key : String) := Members.find?_written (nodup_routeSlots (condition, destination)) key
  -- the condition is kept on its own, the destination because it is a smaller document
  have hCondition := Members.required_kept hCondition (fun part _ => Condition.kept part)
    (hFind "condition")
  have hDestination := Members.required_kept hDestination
    (fun part hPart => h part (Members.sizeOf_lt_of_find? hRecord hPart)) (hFind "destination")
  rw [route?_eq, toDocument_routeToJson, Members.record?_written (nodup_routeSlots _),
    Option.bind_some, hCondition, Option.bind_some, hDestination]
  rfl

/-- The alternatives that a document is tried as, unless it is a token. -/
theorem ofReadable?_object (ms : Members) : ofReadable? (.object ms) =
    Document.firstOf
      (((Document.object ms).record? routedFields).bind fun ms =>
        (ms.required "routes" (Document.list? route?)).bind fun routes =>
          (ms.required "default" ofReadable?).map fun fallback => .routed routes fallback)
      fun _ => ((Document.object ms).record? branchFields).bind fun ms =>
        (ms.required "if" Condition.ofDocument?).bind fun condition =>
          (ms.required "then" ofReadable?).bind fun target =>
            (ms.optional "else" ofReadable?).map fun otherwise =>
              .branch condition target otherwise :=
  ofReadable?_eq (.object ms)

/-- A destination that is read is read again from what is written of it. -/
theorem keptAt_ofReadable? (d : Document) : KeptAt ofReadable? ofReadable? toJson d := by
  intro destination hRead
  -- by recursion on the document: a route is smaller than its table, a side than its branch
  have hSmaller (part : Document) (h : sizeOf part < sizeOf d) :
      KeptAt ofReadable? ofReadable? toJson part := keptAt_ofReadable? part
  have hFind (key : String) := Members.find?_written destination.nodup_slots key
  have hRecord := Members.record?_written destination.nodup_slots
  rw [ofReadable?_eq] at hRead
  split at hRead
  · cases hRead
    rw [toJson, Json.toDocument, ofReadable?]
  · rcases Document.firstOf_eq_some_iff.mp hRead with hRead | ⟨-, hRead⟩
    · -- a table of routes is tried first again
      obtain ⟨ms, hOld, hRead⟩ := Option.bind_eq_some_iff.mp hRead
      obtain ⟨routes, hRoutes, hRead⟩ := Option.bind_eq_some_iff.mp hRead
      obtain ⟨fallback, hFallback, rfl⟩ := Option.map_eq_some_iff.mp hRead
      have hRoutes := Members.required_kept hRoutes (fun part hPart => keptAt_list? fun item hItem =>
        keptAt_route? fun inner hInner => hSmaller inner (by
          have hLess := Members.sizeOf_lt_of_find? hOld hPart
          omega)) (hFind "routes")
      have hFallback := Members.required_kept hFallback
        (fun part hPart => hSmaller part (Members.sizeOf_lt_of_find? hOld hPart)) (hFind "default")
      rw [toDocument_routed, ofReadable?_object, hRecord, Option.bind_some, hRoutes,
        Option.bind_some, hFallback]
      rfl
    · -- what is written of a branch has no routes
      obtain ⟨ms, hOld, hRead⟩ := Option.bind_eq_some_iff.mp hRead
      obtain ⟨condition, hCondition, hRead⟩ := Option.bind_eq_some_iff.mp hRead
      obtain ⟨target, hTarget, hRead⟩ := Option.bind_eq_some_iff.mp hRead
      obtain ⟨otherwise, hOtherwise, rfl⟩ := Option.map_eq_some_iff.mp hRead
      have hPart (name : String) (part : Document) (hPart : ms.find? name = some part) :
          KeptAt ofReadable? ofReadable? toJson part :=
        hSmaller part (Members.sizeOf_lt_of_find? hOld hPart)
      have hNoRoutes : Members.required (Members.written (branch condition target otherwise).slots)
          "routes" (Document.list? route?) = none := by
        rw [Members.required, hFind "routes"]
        rfl
      have hCondition := Members.required_kept hCondition (fun part _ => Condition.kept part)
        (hFind "if")
      have hTarget := Members.required_kept hTarget (hPart "then") (hFind "then")
      have hOtherwise := Members.optional_kept hOtherwise (hPart "else") (by simp [ofReadable?])
        (hFind "else")
      rw [toDocument_branch, ofReadable?_object, hRecord, hRecord, Option.bind_some, hNoRoutes,
        Option.bind_some, hCondition, Option.bind_some, hTarget, Option.bind_some, hOtherwise]
      rfl
termination_by sizeOf d

theorem kept (d : Document) : KeptAt ofDocument? ofDocument? toJson d := by
  intro destination hRead
  rw [ofDocument?, Option.ite_none_right_eq_some] at hRead
  rw [ofDocument?, if_pos (Json.isReadable_toDocument _)]
  exact keptAt_ofReadable? d destination hRead.2

end Destination

end Onboarding
