import Onboarding.Element.Walk

/-!
# Onboarding — valid forests

A forest is valid when no two of its elements share an id and only containers
have children. The check walks the forest and reports the first element that
breaks a rule.

## Results

* `SeenIds.contains_seen_note` — what has been seen after an id was noted.
* `SeenIds.repeated_note` — an id is repeated exactly if it was seen before.
-/

namespace Onboarding

/-- How a forest breaks the rules. -/
inductive ForestError where
  | duplicateId (id : String)
  | leafWithChildren (id : String) (kind : ElementKind)
deriving DecidableEq

namespace ForestError

/-- The wording of an error. -/
def message : ForestError → String
  | duplicateId id => "Duplicate element id: " ++ id
  | leafWithChildren id kind => "Element " ++ id ++ " of kind " ++ kind.name ++
      " cannot have children"

end ForestError

namespace Element

/-! ## Repeated ids -/

/-- The ids seen so far and those seen again, in the order they came. -/
structure SeenIds where
  seen : NameSet := ∅
  repeated : List String := []

/-- Note an id. -/
def SeenIds.note (s : SeenIds) (id : String) : SeenIds :=
  if s.seen.contains id then { s with repeated := s.repeated ++ [id] }
  else { s with seen := s.seen.add id }

/-- A noted id has been seen, and so has what was seen before. -/
theorem SeenIds.contains_seen_note (s : SeenIds) (id name : String) :
    (s.note id).seen.contains name = (decide (name = id) || s.seen.contains name) := by
  unfold note
  split
  · rename_i h
    by_cases hn : name = id <;> simp_all
  · by_cases hn : name = id <;> simp [NameSet.add, Table.contains, Table.get?_insert, hn]

/-- An id is repeated exactly if it was seen before. -/
theorem SeenIds.repeated_note (s : SeenIds) (id : String) :
    (s.note id).repeated = s.repeated ++ if s.seen.contains id then [id] else [] := by
  unfold note
  split <;> simp

/-- The ids that come again, once for every time. -/
def repeatedIds (roots : List Element) : List String :=
  (walk (fun (s : SeenIds) e _ => (s.note e.id, .proceed)) {} roots).repeated

/-! ## The check -/

/-- The state of the check: the ids seen and the first error. -/
structure Check where
  ids : SeenIds := {}
  error : Option ForestError := none

/-- Check one element. -/
def checkVisitor : Visitor Check := fun s e _ =>
  let ids := s.ids.note e.id
  if !ids.repeated.isEmpty then ({ ids, error := some (.duplicateId e.id) }, .stop)
  else if !e.kind.holdsChildren && !e.children.isEmpty then
    ({ ids, error := some (.leafWithChildren e.id e.kind) }, .stop)
  else ({ s with ids }, .proceed)

/-- Whether a forest is valid, and if not, the first error. -/
def validate (roots : List Element) : Except ForestError Unit :=
  match (walk checkVisitor {} roots).error with
  | some error => .error error
  | none => .ok ()

end Element

end Onboarding
