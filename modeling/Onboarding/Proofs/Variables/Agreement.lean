import Mathlib.Data.List.Basic
import Onboarding.Destination.Basic
import Onboarding.Template

/-!
# Onboarding — what depends on which variables

A condition, a template and a destination look up the variables that they name
and no others. Over variables that agree on these names, whether by the same
value or by having none, they come to the same.

## Results

* `Condition.holds_congr` — a condition depends on the variables it names.
* `Template.resolve_congr` — a template depends on the variables of its tokens.
* `Destination.resolve_congr` — a destination depends on the variables that its
  conditions name.
-/

namespace Onboarding

namespace Variables

/-- Under each of the names both have the same value, or neither has one. -/
def AgreeOn (names : List String) (vars others : Variables) : Prop :=
  ∀ name ∈ names, vars.get? name = others.get? name

variable {names more : List String} {vars others : Variables}

theorem AgreeOn.mono (h : AgreeOn names vars others) (hSubset : more ⊆ names) :
    AgreeOn more vars others :=
  fun name hName => h name (hSubset hName)

theorem agreeOn_append :
    AgreeOn (names ++ more) vars others ↔ AgreeOn names vars others ∧ AgreeOn more vars others :=
  List.forall_mem_append

/-- Writing the same value keeps an agreement. -/
theorem AgreeOn.insert (h : AgreeOn names vars others) (key : String) (value : Json) :
    AgreeOn names (vars.insert key value) (others.insert key value) := by
  intro name hName
  rw [Table.get?_insert, Table.get?_insert, h name hName]

/-- Laying them over the same base keeps an agreement. -/
theorem AgreeOn.overlay (h : AgreeOn names vars others) (base : Variables) :
    AgreeOn names (vars.overlay base) (others.overlay base) := by
  intro name hName
  rw [get?_overlay, get?_overlay, h name hName]

end Variables

open Variables (AgreeOn)

variable {vars others : Variables}

/-! ## Conditions -/

namespace Condition

mutual

/-- A condition depends on the variables that it names. -/
theorem holds_congr : ∀ {c : Condition}, AgreeOn c.variableNames vars others →
    c.holds vars = c.holds others
  | leaf name operator value, h => by
    -- the only lookup there is; the other cases hand the agreement on to the parts
    have hName : name ∈ (leaf name operator value).variableNames := by simp [variableNames]
    rw [holds, holds, h name hName]
  | all parts, h => by
    rw [variableNames] at h
    rw [holds, holds, allHold_congr h]
  | any parts, h => by
    rw [variableNames] at h
    rw [holds, holds, anyHold_congr h]
  | not part, h => by
    rw [variableNames] at h
    rw [holds, holds, holds_congr h]

theorem allHold_congr : ∀ {parts : List Condition}, AgreeOn (variableNamesOf parts) vars others →
    allHold vars parts = allHold others parts
  | [], _ => by rw [allHold, allHold]
  | part :: rest, h => by
    rw [variableNamesOf, Variables.agreeOn_append] at h
    rw [allHold, allHold, holds_congr h.1, allHold_congr h.2]

theorem anyHold_congr : ∀ {parts : List Condition}, AgreeOn (variableNamesOf parts) vars others →
    anyHold vars parts = anyHold others parts
  | [], _ => by rw [anyHold, anyHold]
  | part :: rest, h => by
    rw [variableNamesOf, Variables.agreeOn_append] at h
    rw [anyHold, anyHold, holds_congr h.1, anyHold_congr h.2]

end

end Condition

/-! ## Templates -/

namespace Template

/-- A segment depends on the variable that it names, if it is a token. -/
theorem Segment.resolve_congr {segment : Segment}
    (h : ∀ name, segment.name? = some name → vars.get? name = others.get? name) :
    segment.resolve vars = segment.resolve others := by
  cases segment with
  | char c => rfl
  | token name => rw [Segment.resolve, Segment.resolve, h _ rfl]

/-- A template depends on the variables of its tokens. -/
theorem resolve_congr {text : String} (h : AgreeOn (tokens text) vars others) :
    resolve text vars = resolve text others := by
  unfold resolve
  congr 1
  refine List.flatMap_congr fun segment hSegment => ?_
  -- a token among the segments is a token of the text
  exact Segment.resolve_congr fun name hName =>
    h name (List.mem_filterMap.mpr ⟨segment, hSegment, hName⟩)

end Template

/-! ## Destinations -/

namespace Destination

mutual

/-- The variables that the conditions in a destination name, in order. -/
def variableNames : Destination → List String
  | literal _ => []
  | branch condition target none => condition.variableNames ++ variableNames target
  | branch condition target (some otherwise) =>
    condition.variableNames ++ (variableNames target ++ variableNames otherwise)
  | routed routes fallback => variableNamesOf routes ++ variableNames fallback

/-- The variables that the conditions in the routes name, in order. -/
def variableNamesOf : List (Condition × Destination) → List String
  | [] => []
  | (condition, destination) :: rest =>
    condition.variableNames ++ (variableNames destination ++ variableNamesOf rest)

end

mutual

/-- A destination depends on the variables that its conditions name. -/
theorem resolve_congr : ∀ {destination : Destination},
    AgreeOn destination.variableNames vars others →
    destination.resolve vars = destination.resolve others
  | literal token, _ => by rw [resolve, resolve]
  | branch condition target none, h => by
    rw [variableNames, Variables.agreeOn_append] at h
    rw [resolve, resolve, Condition.holds_congr h.1, resolve_congr h.2]
  | branch condition target (some otherwise), h => by
    rw [variableNames, Variables.agreeOn_append, Variables.agreeOn_append] at h
    -- the agreement covers both sides, although only one of them is looked at
    rw [resolve, resolve, Condition.holds_congr h.1, resolve_congr h.2.1, resolve_congr h.2.2]
  | routed routes fallback, h => by
    rw [variableNames, Variables.agreeOn_append] at h
    rw [resolve, resolve, resolveRoutes_congr h.1, resolve_congr h.2]

theorem resolveRoutes_congr : ∀ {routes : List (Condition × Destination)},
    AgreeOn (variableNamesOf routes) vars others →
    resolveRoutes vars routes = resolveRoutes others routes
  | [], _ => by rw [resolveRoutes, resolveRoutes]
  | (condition, destination) :: rest, h => by
    rw [variableNamesOf, Variables.agreeOn_append, Variables.agreeOn_append] at h
    rw [resolveRoutes, resolveRoutes, Condition.holds_congr h.1, resolve_congr h.2.1,
      resolveRoutes_congr h.2.2]

end

end Destination

end Onboarding
