import Onboarding.Proofs.Wire.Rules

/-!
# Onboarding — `null` and nothing in conditions

Equality, order and emptiness take `null` for nothing on both sides. Membership
looks at its operands as they are: a variable that is `null` is among items of
which one is `null`, a variable that is missing is among none; and a list with
such an item contains `null`, but does not contain what is not given. Nothing
else in a condition tells the two apart.

So `null` variables may be dropped, and `null` values left out, wherever no
comparison is of these two kinds. What is read of a written condition is the
condition with its `null` values left out.

## Results

* `Comparison.holds_present_actual_iff`, `Comparison.holds_present_expected_iff` —
  which comparisons tell `null` from nothing.
* `Condition.ofDocument?_toJson_of_wellFormed` — what is read of a written condition.
* `Condition.holds_withoutNulls` — all other conditions do not tell them apart.
* `Condition.holds_ne_of_null` — two that do.
-/

namespace Onboarding

/-! ## Comparisons -/

namespace Comparison

variable {actual expected : Option Json} {operator : Operator}

theorem present?_eq_filter (v : Option Json) : present? v = v.filter fun v => !v.isNull := by
  cases v with
  | none => rfl
  | some v => cases v <;> rfl

theorem present?_present? (v : Option Json) : present? (present? v) = present? v := by
  cases v with
  | none => rfl
  | some v => cases v <;> rfl

/-- The variable is `null`, and so is one of the items it should be among. -/
def NullListed (actual : Option Json) (operator : Operator) (expected : Option Json) : Prop :=
  operator = .isIn ∧ actual = some .null ∧ ∃ xs, expected = some (.array xs) ∧ .null ∈ xs

/-- The value is `null`, and so is one of the items of the variable that should contain it. -/
def NullSought (actual : Option Json) (operator : Operator) (expected : Option Json) : Prop :=
  operator = .contains ∧ expected = some .null ∧ ∃ xs, actual = some (.array xs) ∧ .null ∈ xs

/-- `null` agrees with `null` only, on either side. -/
theorem agree_null (v : Json) :
    agree (some .null) (some v) = v.isNull ∧ agree (some v) (some .null) = v.isNull := by
  cases v <;> exact ⟨rfl, rfl⟩

/-- A list has a missing value exactly if it has `null`. -/
theorem any_isNull {xs : List Json} : xs.any Json.isNull = true ↔ .null ∈ xs := by
  rw [List.any_eq_true]
  constructor
  · rintro ⟨x, hx, hNull⟩
    cases x with
    | null => exact hx
    | _ => cases hNull
  · exact fun hMem => ⟨.null, hMem, rfl⟩

/-- `null` is among the items of a list that has a `null` item. -/
theorem isAmong_null : isAmong (some .null) expected = true ↔
    ∃ xs, expected = some (.array xs) ∧ .null ∈ xs := by
  cases expected with
  | none => simp [isAmong]
  | some v =>
    cases v with
    | array xs =>
      have hAny : isAmong (some .null) (some (.array xs)) = xs.any Json.isNull :=
        List.any_congr rfl fun x => (agree_null x).1
      rw [hAny, any_isNull]
      simp
    | _ => simp [isAmong]

/-- A list with a `null` item contains `null`. -/
theorem contains_null : contains actual (some .null) = true ↔
    ∃ xs, actual = some (.array xs) ∧ .null ∈ xs := by
  cases actual with
  | none => simp [contains]
  | some v =>
    cases v with
    | array xs =>
      have hAny : contains (some (.array xs)) (some .null) = xs.any Json.isNull :=
        List.any_congr rfl fun x => (agree_null x).2
      rw [hAny, any_isNull]
      simp
    | _ => simp [contains]

/-- What is missing is among no items. -/
theorem isAmong_present_iff : isAmong (present? actual) expected = isAmong actual expected ↔
    ¬(actual = some .null ∧ ∃ xs, expected = some (.array xs) ∧ .null ∈ xs) := by
  by_cases hNull : actual = some .null
  · subst hNull
    -- the variable is dropped, and what is missing is among nothing
    show false = _ ↔ _
    rw [eq_comm, Bool.eq_false_iff, ne_eq, isAmong_null, eq_self, true_and]
  · refine iff_of_true ?_ fun h => hNull h.1
    cases actual with
    | none => rfl
    | some v => cases v <;> first | rfl | exact absurd rfl hNull

/-- Nothing contains what is missing. -/
theorem contains_present_iff : contains actual (present? expected) = contains actual expected ↔
    ¬(expected = some .null ∧ ∃ xs, actual = some (.array xs) ∧ .null ∈ xs) := by
  by_cases hNull : expected = some .null
  · subst hNull
    have hMissing : contains actual none = false := by
      unfold contains
      split <;> first | rfl | next hExpected => cases hExpected
    show contains actual none = _ ↔ _
    rw [hMissing, eq_comm, Bool.eq_false_iff, ne_eq, contains_null, eq_self, true_and]
  · refine iff_of_true ?_ fun h => hNull h.1
    cases expected with
    | none => rfl
    | some v => cases v <;> first | rfl | exact absurd rfl hNull

/-- A list or a text contains something only if it is there. -/
theorem contains_present_actual :
    contains (present? actual) expected = contains actual expected := by
  cases actual with
  | none => rfl
  | some v => cases v <;> rfl

/-- A value is among the items of a list only if the list is there. -/
theorem isAmong_present_expected :
    isAmong actual (present? expected) = isAmong actual expected := by
  cases expected with
  | none => rfl
  | some v => cases v <;> cases actual <;> rfl

theorem isEmpty_present : isEmpty (present? actual) = isEmpty actual := by
  cases actual with
  | none => rfl
  | some v => cases v <;> rfl

/-- A comparison tells a `null` variable from a missing one exactly if it looks for it in a list
with a `null` item. -/
theorem holds_present_actual_iff :
    holds (present? actual) operator expected = holds actual operator expected ↔
      ¬NullListed actual operator expected := by
  cases operator with
  | isIn => simpa [holds, NullListed] using isAmong_present_iff
  | _ =>
    refine iff_of_true ?_ (by simp [NullListed])
    simp only [holds, agree, order?, present?_present?, contains_present_actual, isEmpty_present]

/-- A comparison tells a `null` value from a missing one exactly if it looks for it in a list with a
`null` item. -/
theorem holds_present_expected_iff :
    holds actual operator (present? expected) = holds actual operator expected ↔
      ¬NullSought actual operator expected := by
  cases operator with
  | contains => simpa [holds, NullSought] using contains_present_iff
  | _ =>
    refine iff_of_true ?_ (by simp [NullSought])
    simp only [holds, agree, order?, present?_present?, isAmong_present_expected]

end Comparison

/-! ## Variables that are `null` -/

namespace Variables

/-- The variables that are not `null`. -/
def withoutNulls (vars : Variables) : Variables := vars.filter fun v => !v.isNull

/-- Dropping the `null` variables leaves of each variable what is there. -/
theorem get?_withoutNulls (vars : Variables) (name : String) :
    vars.withoutNulls.get? name = Comparison.present? (vars.get? name) := by
  rw [Comparison.present?_eq_filter, withoutNulls, Table.get?_filter]

end Variables

/-! ## Comparisons inside a condition -/

namespace Condition

/-- A comparison in a condition. -/
structure Leaf where
  name : String
  operator : Operator
  value : Option Json

/-- The operator is the one of its name, and the value is canonical. -/
structure Leaf.WellFormed (leaf : Leaf) : Prop where
  operator : Operator.ofName leaf.operator.name = leaf.operator
  value : ∀ v, leaf.value = some v → v.Canonical

mutual

/-- The comparisons in a condition, in order. -/
def leaves : Condition → List Leaf
  | leaf name operator value => [⟨name, operator, value⟩]
  | all parts => leavesOf parts
  | any parts => leavesOf parts
  | not part => leaves part

/-- The comparisons in the parts, in order. -/
def leavesOf : List Condition → List Leaf
  | [] => []
  | part :: rest => leaves part ++ leavesOf rest

end

mutual

/-- The condition with every value changed. -/
def mapValues (f : Option Json → Option Json) : Condition → Condition
  | leaf name operator value => leaf name operator (f value)
  | all parts => all (mapValuesOf f parts)
  | any parts => any (mapValuesOf f parts)
  | not part => not (mapValues f part)

/-- `mapValues` of every part. -/
def mapValuesOf (f : Option Json → Option Json) : List Condition → List Condition
  | [] => []
  | part :: rest => mapValues f part :: mapValuesOf f rest

end

/-- The condition with every `null` value left out. -/
def withoutNulls (c : Condition) : Condition := c.mapValues Comparison.present?

mutual

theorem mapValues_id : ∀ c : Condition, c.mapValues id = c
  | leaf name operator value => by rw [mapValues, id]
  | all parts => by rw [mapValues, mapValuesOf_id parts]
  | any parts => by rw [mapValues, mapValuesOf_id parts]
  | not part => by rw [mapValues, mapValues_id part]

theorem mapValuesOf_id : ∀ parts : List Condition, mapValuesOf id parts = parts
  | [] => by rw [mapValuesOf]
  | part :: rest => by rw [mapValuesOf, mapValues_id part, mapValuesOf_id rest]

end

/-- A comparison comes to the same over other variables with its value changed. -/
def SameAt (vars others : Variables) (f : Option Json → Option Json) (leaf : Leaf) : Prop :=
  Comparison.holds (others.get? leaf.name) leaf.operator (f leaf.value) =
    Comparison.holds (vars.get? leaf.name) leaf.operator leaf.value

section Evaluation

variable {vars others : Variables} {f : Option Json → Option Json}

mutual

/-- A condition comes to the same if each of its comparisons does. -/
theorem holds_mapValues : ∀ {c : Condition}, (∀ leaf ∈ c.leaves, SameAt vars others f leaf) →
    (c.mapValues f).holds others = c.holds vars
  -- the induction is on the condition: a part has some of the comparisons of the whole
  | leaf name operator value, h => by
    have hLeaf := h ⟨name, operator, value⟩ (by rw [leaves]; exact List.mem_singleton_self _)
    rw [mapValues, holds, holds]
    exact hLeaf
  | all parts, h => by
    rw [leaves] at h
    rw [mapValues, holds, holds, allHold_mapValuesOf h]
  | any parts, h => by
    rw [leaves] at h
    rw [mapValues, holds, holds, anyHold_mapValuesOf h]
  | not part, h => by
    rw [leaves] at h
    rw [mapValues, holds, holds, holds_mapValues h]

/-- All of the parts hold as before if each does. -/
theorem allHold_mapValuesOf : ∀ {parts : List Condition},
    (∀ leaf ∈ leavesOf parts, SameAt vars others f leaf) →
    allHold others (mapValuesOf f parts) = allHold vars parts
  | [], _ => by rw [mapValuesOf, allHold, allHold]
  | part :: rest, h => by
    rw [leavesOf, List.forall_mem_append] at h
    rw [mapValuesOf, allHold, allHold, holds_mapValues h.1, allHold_mapValuesOf h.2]

/-- Any of the parts holds as before if each does. -/
theorem anyHold_mapValuesOf : ∀ {parts : List Condition},
    (∀ leaf ∈ leavesOf parts, SameAt vars others f leaf) →
    anyHold others (mapValuesOf f parts) = anyHold vars parts
  | [], _ => by rw [mapValuesOf, anyHold, anyHold]
  | part :: rest, h => by
    rw [leavesOf, List.forall_mem_append] at h
    rw [mapValuesOf, anyHold, anyHold, holds_mapValues h.1, anyHold_mapValuesOf h.2]

end

end Evaluation

/-! ## Written conditions -/

/-- A value that is written is read if it is there. -/
theorem optional_value {name : String} {operator : Operator} {value : Option Json}
    (h : ∀ v, value = some v → v.Canonical) :
    Members.optional (Members.written (leaf name operator value).slots) "value" Document.toJson? =
      some (Comparison.present? value) := by
  cases value with
  | none => exact optional_slots_eq_none rfl
  | some v =>
    have hRead := Json.toJson?_toDocument (h v rfl)
    cases v with
    | null =>
      rw [Members.optional, Members.find?_written (nodup_slots _)]
      rfl
    | _ => exact optional_slots_eq_some rfl rfl hRead

mutual

/-- What is read of a written condition is the condition with its `null` values left out. -/
theorem ofDocument?_toJson_of_wellFormed : ∀ {c : Condition},
    (∀ leaf ∈ c.leaves, leaf.WellFormed) → ofDocument? c.toJson.toDocument = some c.withoutNulls
  | leaf name operator value, h => by
    have hLeaf := h ⟨name, operator, value⟩ (by rw [leaves]; exact List.mem_singleton_self _)
    have hName : Members.optional (Members.written (leaf name operator value).slots) "variable"
        Document.toString? = some (some name) := optional_slots_eq_some rfl rfl rfl
    have hOperator : Members.optional (Members.written (leaf name operator value).slots) "operator"
        Document.toString? = some (some operator.name) := optional_slots_eq_some rfl rfl rfl
    rw [ofDocument?_toJson, assemble, hName, hOperator, optional_value hLeaf.value,
      optional_slots_eq_none rfl, optional_slots_eq_none rfl, optional_slots_eq_none rfl]
    show some (leaf name (.ofName operator.name) _) = _
    rw [hLeaf.operator, withoutNulls, mapValues]
  -- a combination is written with its own field alone, so nothing wins over it
  | all parts, h => by
    rw [leaves] at h
    rw [ofDocument?_toJson, assemble, optional_slots_eq_none rfl, optional_slots_eq_none rfl,
      optional_slots_eq_none rfl,
      optional_slots_eq_some rfl rfl (readAll_toJson_of_wellFormed h), optional_slots_eq_none rfl,
      optional_slots_eq_none rfl, withoutNulls, mapValues]
    rfl
  | any parts, h => by
    rw [leaves] at h
    rw [ofDocument?_toJson, assemble, optional_slots_eq_none rfl, optional_slots_eq_none rfl,
      optional_slots_eq_none rfl, optional_slots_eq_none rfl,
      optional_slots_eq_some rfl rfl (readAll_toJson_of_wellFormed h),
      optional_slots_eq_none rfl, withoutNulls, mapValues]
    rfl
  | not part, h => by
    rw [leaves] at h
    have hPart := ofDocument?_toJson_of_wellFormed h
    have hNull : part.toJson.toDocument.isNull = false := by
      rw [toDocument_toJson]
      rfl
    rw [ofDocument?_toJson, assemble, optional_slots_eq_none rfl, optional_slots_eq_none rfl,
      optional_slots_eq_none rfl, optional_slots_eq_none rfl, optional_slots_eq_none rfl,
      optional_slots_eq_some rfl hNull hPart]
    rfl

/-- Parts that are written are read without their `null`s. -/
theorem readAll_toJson_of_wellFormed : ∀ {parts : List Condition},
    (∀ leaf ∈ leavesOf parts, leaf.WellFormed) →
    Document.readAll ofDocument? (Json.toDocuments (parts.map toJson)) =
      some (mapValuesOf Comparison.present? parts)
  | [], _ => by rw [mapValuesOf]; rfl
  | part :: rest, h => by
    rw [leavesOf, List.forall_mem_append] at h
    rw [List.map_cons, Json.toDocuments, Document.readAll, ofDocument?_toJson_of_wellFormed h.1,
      readAll_toJson_of_wellFormed h.2, mapValuesOf]
    rfl

end

/-! ## `null` and nothing -/

/-- **Conditions take `null` for nothing**, but for membership. If no comparison in a condition
looks for a `null` variable in a list with a `null` item, the condition comes to the same over the
variables that are not `null`. If none looks for the value `null` in a variable with such an item,
the condition comes to the same with its `null` values left out; and then it is read again from what
is written of it as a condition that comes to the same, if its operators are those of their names
and its values canonical. A condition that was read itself always is. -/
theorem holds_withoutNulls (c : Condition) (vars : Variables) :
    ((∀ leaf ∈ c.leaves,
        ¬Comparison.NullListed (vars.get? leaf.name) leaf.operator leaf.value) →
      c.holds vars.withoutNulls = c.holds vars) ∧
    ((∀ leaf ∈ c.leaves,
        ¬Comparison.NullSought (vars.get? leaf.name) leaf.operator leaf.value) →
      c.withoutNulls.holds vars = c.holds vars ∧
      ((∀ leaf ∈ c.leaves, leaf.WellFormed) →
        ∃ again, ofDocument? c.toJson.toDocument = some again ∧ again.holds vars = c.holds vars)) ∧
    ∀ d, ofDocument? d = some c →
      ∃ again, ofDocument? c.toJson.toDocument = some again ∧ again.holds vars = c.holds vars := by
  refine ⟨fun hListed => ?_, fun hSought => ?_, fun d hRead => ⟨c, kept d c hRead, rfl⟩⟩
  · -- dropping variables changes the lookups and no value
    have hSame : ∀ leaf ∈ c.leaves, SameAt vars vars.withoutNulls id leaf := by
      intro leaf hLeaf
      rw [SameAt, Variables.get?_withoutNulls]
      exact Comparison.holds_present_actual_iff.mpr (hListed leaf hLeaf)
    rw [← holds_mapValues hSame, mapValues_id]
  · have hSame : c.withoutNulls.holds vars = c.holds vars := holds_mapValues fun leaf hLeaf =>
      Comparison.holds_present_expected_iff.mpr (hSought leaf hLeaf)
    exact ⟨hSame, fun hLeaves => ⟨_, ofDocument?_toJson_of_wellFormed hLeaves, hSame⟩⟩

/-- Two `null` variables, a list with a `null` item and a `null` value, none of which is looked for
in another; and a comparison that was read. -/
theorem holds_withoutNulls_nested :
    let c := all [compare "x" "equals" .null, not (compare "y" "in" (.array [.string "a"])),
      any [compare "z" "contains" (.string "b")]]
    let vars : Variables :=
      .ofList [("x", .null), ("y", .null), ("z", .array [.null, .string "b"])]
    let d : Document := .object [("operator", .string "is_empty"), ("variable", .string "y")]
    (∀ leaf ∈ c.leaves, ¬Comparison.NullListed (vars.get? leaf.name) leaf.operator leaf.value) ∧
      (∀ leaf ∈ c.leaves, ¬Comparison.NullSought (vars.get? leaf.name) leaf.operator leaf.value) ∧
      (∀ leaf ∈ c.leaves, leaf.WellFormed) ∧ ofDocument? d = some (leaf "y" .isEmpty none) ∧
    c.holds vars = true ∧ c.holds vars.withoutNulls = true ∧ c.withoutNulls.holds vars = true ∧
      (∃ again, ofDocument? c.toJson.toDocument = some again ∧ again.holds vars = true) ∧
      ∃ again, ofDocument? (leaf "y" .isEmpty none).toJson.toDocument = some again ∧
        again.holds vars = true := by
  intro c vars d
  have hLeaves : c.leaves = [⟨"x", .equals, some .null⟩,
    ⟨"y", .isIn, some (.array [.string "a"])⟩, ⟨"z", .contains, some (.string "b")⟩] := rfl
  have hListed : ∀ leaf ∈ c.leaves,
      ¬Comparison.NullListed (vars.get? leaf.name) leaf.operator leaf.value := by
    simp [hLeaves, Comparison.NullListed]
  have hSought : ∀ leaf ∈ c.leaves,
      ¬Comparison.NullSought (vars.get? leaf.name) leaf.operator leaf.value := by
    simp [hLeaves, Comparison.NullSought]
  have hFormed : ∀ leaf ∈ c.leaves, leaf.WellFormed := by
    rw [hLeaves]
    simp only [List.forall_mem_cons]
    refine ⟨⟨rfl, ?_⟩, ⟨rfl, ?_⟩, ⟨rfl, ?_⟩, fun _ h => absurd h List.not_mem_nil⟩ <;>
      · rintro _ ⟨⟩
        simp [Json.Canonical, Json.CanonicalItems]
  have hRead : ofDocument? d = some (leaf "y" .isEmpty none) := by rfl
  have hHolds : c.holds vars = true := by decide
  obtain ⟨hVariables, hValues, -⟩ := holds_withoutNulls c vars
  obtain ⟨hSame, hAgain⟩ := hValues hSought
  obtain ⟨again, hWritten, hEqual⟩ := hAgain hFormed
  exact ⟨hListed, hSought, hFormed, hRead, hHolds, (hVariables hListed).trans hHolds,
    hSame.trans hHolds, ⟨again, hWritten, hEqual.trans hHolds⟩,
    (holds_withoutNulls (leaf "y" .isEmpty none) vars).2.2 d hRead⟩

/-- A `null` variable is in a list with a `null` item, in which a missing one is not; and such a
list contains the value `null`, but not a value that is left out. -/
theorem holds_ne_of_null :
    let among := compare "x" "in" (.array [.null])
    let sought := compare "x" "contains" .null
    let single : Variables := .ofList [("x", .null)]
    let listed : Variables := .ofList [("x", .array [.null])]
    (among.holds single = true ∧ among.holds single.withoutNulls = false) ∧
      sought.holds listed = true ∧ sought.withoutNulls.holds listed = false ∧
      ∃ again, ofDocument? sought.toJson.toDocument = some again ∧ again.holds listed = false := by
  refine ⟨⟨by decide, by decide⟩, by decide, by decide, _, rfl, by decide⟩

end Condition

end Onboarding
