import Onboarding.Destination.Basic
import Onboarding.Condition.Wire

/-!
# Onboarding — destinations in JSON

A destination is a string, a record of routes with a default, or a record of a
condition with one or two sides; the first of these that fits is taken. Nothing
of a destination may be unreadable.

## Results

* `Destination.ofReadable?_eq` — the alternatives, each a record.
-/

namespace Onboarding.Destination

/-! ## Reading -/

/-- The fields of a table of routes. -/
def routedFields : List String := ["routes", "default"]

/-- The fields of a branch. -/
def branchFields : List String := ["if", "then", "else"]

/-- The fields of a route. -/
def routeFields : List String := ["condition", "destination"]

mutual

/-- The destination a readable document says. -/
def ofReadable? : Document → Option Destination
  | .string s => some (.literal s)
  | .object ms =>
    Document.firstOf
      (if Members.repeatsAny ms routedFields then none
      else (routesUnder "routes" ms).bind fun routes =>
        (sideUnder "default" ms).map fun fallback => .routed routes fallback)
      fun _ =>
        if Members.repeatsAny ms branchFields then none
        else (Members.required ms "if" Condition.ofDocument?).bind fun condition =>
          (sideUnder "then" ms).bind fun target =>
            (optionalUnder "else" ms).map fun otherwise => .branch condition target otherwise
  | .array xs =>
    Document.firstOf
      (if xs.length ≤ routedFields.length then
        (routesAmong "routes" routedFields xs).bind fun routes =>
          (sideAmong "default" routedFields xs).map fun fallback => .routed routes fallback
      else none)
      fun _ =>
        if xs.length ≤ branchFields.length then
          (Members.required (branchFields.zip xs) "if" Condition.ofDocument?).bind fun condition =>
            (sideAmong "then" branchFields xs).bind fun target =>
              (optionalAmong "else" branchFields xs).map fun otherwise =>
                .branch condition target otherwise
        else none
  | _ => none

/-- The destination under a name. -/
def sideUnder (name : String) : Members → Option Destination
  | [] => none
  | (k, d) :: ms => if name = k then ofReadable? d else sideUnder name ms

/-- The optional destination under a name. -/
def optionalUnder (name : String) : Members → Option (Option Destination)
  | [] => some none
  | (k, d) :: ms =>
    if name = k then (if d.isNull then some none else (ofReadable? d).map some)
    else optionalUnder name ms

/-- The routes under a name. -/
def routesUnder (name : String) : Members → Option (List (Condition × Destination))
  | [] => none
  | (k, d) :: ms => if name = k then routes? d else routesUnder name ms

/-- The destination at the place of a name. -/
def sideAmong (name : String) : List String → List Document → Option Destination
  | k :: ks, d :: ds => if name = k then ofReadable? d else sideAmong name ks ds
  | [], _ => none
  | _ :: _, [] => none

/-- The optional destination at the place of a name. -/
def optionalAmong (name : String) : List String → List Document → Option (Option Destination)
  | k :: ks, d :: ds =>
    if name = k then (if d.isNull then some none else (ofReadable? d).map some)
    else optionalAmong name ks ds
  | [], _ => some none
  | _ :: _, [] => some none

/-- The routes at the place of a name. -/
def routesAmong (name : String) :
    List String → List Document → Option (List (Condition × Destination))
  | k :: ks, d :: ds => if name = k then routes? d else routesAmong name ks ds
  | [], _ => none
  | _ :: _, [] => none

/-- The routes of an array. -/
def routes? : Document → Option (List (Condition × Destination))
  | .array xs => routesOf xs
  | _ => none

/-- Every document read as a route. -/
def routesOf : List Document → Option (List (Condition × Destination))
  | [] => some []
  | d :: ds => (route? d).bind fun route => (routesOf ds).map (route :: ·)

/-- A route: a condition and a destination. -/
def route? : Document → Option (Condition × Destination)
  | .object ms =>
    if Members.repeatsAny ms routeFields then none
    else (Members.required ms "condition" Condition.ofDocument?).bind fun condition =>
      (sideUnder "destination" ms).map fun destination => (condition, destination)
  | .array xs =>
    if xs.length ≤ routeFields.length then
      (Members.required (routeFields.zip xs) "condition" Condition.ofDocument?).bind
        fun condition => (sideAmong "destination" routeFields xs).map fun destination =>
          (condition, destination)
    else none
  | _ => none

end

/-- The destination a document says. -/
def ofDocument? (d : Document) : Option Destination :=
  if d.isReadable then ofReadable? d else none

/-! ## The fields that hold destinations -/

/-- A destination is looked up like any other field. -/
theorem sideUnder_eq (name : String) (ms : Members) :
    sideUnder name ms = ms.required name ofReadable? := by
  induction ms with
  | nil => simp [sideUnder, Members.required, Members.find?, Entries.get?]
  | cons m ms ih => rw [sideUnder, Members.required_cons, ih]

theorem optionalUnder_eq (name : String) (ms : Members) :
    optionalUnder name ms = ms.optional name ofReadable? := by
  induction ms with
  | nil => simp [optionalUnder, Members.optional, Members.find?, Entries.get?]
  | cons m ms ih => rw [optionalUnder, Members.optional_cons, ih]

theorem routesUnder_eq (name : String) (ms : Members) :
    routesUnder name ms = ms.required name routes? := by
  induction ms with
  | nil => simp [routesUnder, Members.required, Members.find?, Entries.get?]
  | cons m ms ih => rw [routesUnder, Members.required_cons, ih]

theorem sideAmong_eq (name : String) (ks : List String) (ds : List Document) :
    sideAmong name ks ds = Members.required (ks.zip ds) name ofReadable? := by
  induction ks generalizing ds with
  | nil => simp [sideAmong, Members.required, Members.find?, Entries.get?]
  | cons k ks ih =>
    cases ds with
    | nil => simp [sideAmong, Members.required, Members.find?, Entries.get?]
    | cons d ds => rw [sideAmong, List.zip_cons_cons, Members.required_cons, ih]

theorem optionalAmong_eq (name : String) (ks : List String) (ds : List Document) :
    optionalAmong name ks ds = Members.optional (ks.zip ds) name ofReadable? := by
  induction ks generalizing ds with
  | nil => simp [optionalAmong, Members.optional, Members.find?, Entries.get?]
  | cons k ks ih =>
    cases ds with
    | nil => simp [optionalAmong, Members.optional, Members.find?, Entries.get?]
    | cons d ds => rw [optionalAmong, List.zip_cons_cons, Members.optional_cons, ih]

theorem routesAmong_eq (name : String) (ks : List String) (ds : List Document) :
    routesAmong name ks ds = Members.required (ks.zip ds) name routes? := by
  induction ks generalizing ds with
  | nil => simp [routesAmong, Members.required, Members.find?, Entries.get?]
  | cons k ks ih =>
    cases ds with
    | nil => simp [routesAmong, Members.required, Members.find?, Entries.get?]
    | cons d ds => rw [routesAmong, List.zip_cons_cons, Members.required_cons, ih]

theorem routes?_eq (d : Document) : routes? d = d.list? route? := by
  cases d with
  | array xs =>
    rw [routes?, Document.list?]
    induction xs with
    | nil => simp [routesOf, Document.readAll]
    | cons x xs ih => simp [routesOf, Document.readAll, ih]
  | _ => simp [routes?, Document.list?]

/-- A route is a record of a condition and a destination. -/
theorem route?_eq (d : Document) : route? d = (d.record? routeFields).bind fun ms =>
    (ms.required "condition" Condition.ofDocument?).bind fun condition =>
      (ms.required "destination" ofReadable?).map fun destination => (condition, destination) := by
  cases d with
  | object ms =>
    rw [route?, Document.record?]
    split <;> simp [sideUnder_eq]
  | array xs =>
    rw [route?, Document.record?]
    split <;> simp [sideAmong_eq]
  | _ => simp [route?, Document.record?]

/-- The alternatives of a destination, each a record. -/
theorem ofReadable?_eq (d : Document) : ofReadable? d =
    match d with
    | .string s => some (.literal s)
    | d => Document.firstOf
      ((d.record? routedFields).bind fun ms =>
        (ms.required "routes" (Document.list? route?)).bind fun routes =>
          (ms.required "default" ofReadable?).map fun fallback => .routed routes fallback)
      fun _ => (d.record? branchFields).bind fun ms =>
        (ms.required "if" Condition.ofDocument?).bind fun condition =>
          (ms.required "then" ofReadable?).bind fun target =>
            (ms.optional "else" ofReadable?).map fun otherwise =>
              .branch condition target otherwise := by
  have hRoutes : routes? = Document.list? route? := funext routes?_eq
  cases d with
  | object ms =>
    rw [ofReadable?]
    simp only [Document.record?, routesUnder_eq, sideUnder_eq, optionalUnder_eq, hRoutes]
    congr 1
    · split <;> rfl
    · funext _
      split <;> rfl
  | array xs =>
    rw [ofReadable?]
    simp only [Document.record?, routesAmong_eq, sideAmong_eq, optionalAmong_eq, hRoutes]
    congr 1
    · split <;> rfl
    · funext _
      split <;> rfl
  | string s => simp [ofReadable?]
  | _ => simp [ofReadable?, Document.record?, Document.firstOf]

/-! ## Writing -/

mutual

/-- The JSON of a destination. -/
def toJson : Destination → Json
  | literal token => .string token
  | routed routes fallback =>
    .object [("routes", .array (routesToJson routes)), ("default", toJson fallback)]
  | branch condition target none =>
    .object [("if", condition.toJson), ("then", toJson target)]
  | branch condition target (some otherwise) =>
    .object [("if", condition.toJson), ("then", toJson target), ("else", toJson otherwise)]

/-- The JSON of every route. -/
def routesToJson : List (Condition × Destination) → List Json
  | [] => []
  | (condition, destination) :: rest =>
    .object [("condition", condition.toJson), ("destination", toJson destination)] ::
      routesToJson rest

end

end Onboarding.Destination
