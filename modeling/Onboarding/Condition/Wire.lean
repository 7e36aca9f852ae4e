import Onboarding.Condition.Basic
import Onboarding.Json.Record

/-!
# Onboarding — conditions in JSON

A condition is read as a record of six optional fields. All six are read, then
the first of `all`, `any` and `not` that is there decides, and without them the
record must name a variable and an operator. A `null` value is no value.

## Results

* `Condition.ofDocument?_eq` — a condition is a record whose parts are read like
  any other field.
-/

namespace Onboarding.Condition

/-! ## Reading -/

/-- The fields of a condition in their declared order. -/
def fieldNames : List String := ["variable", "operator", "value", "all", "any", "not"]

/-- The condition of a record whose parts have been read. -/
def assemble (ms : Members) (all any : Option (Option (List Condition)))
    (not : Option (Option Condition)) : Option Condition := do
  let name ← ms.optional "variable" Document.toString?
  let operator ← ms.optional "operator" Document.toString?
  let value ← ms.optional "value" Document.toJson?
  let all ← all
  let any ← any
  let not ← not
  -- combinations win over a comparison, in this order
  match all, any, not, name, operator with
  | some parts, _, _, _, _ => some (.all parts)
  | none, some parts, _, _, _ => some (.any parts)
  | none, none, some part, _, _ => some (.not part)
  | none, none, none, some name, some operator => some (.leaf name (.ofName operator) value)
  | _, _, _, _, _ => none

mutual

/-- The condition a document says. -/
def ofDocument? : Document → Option Condition
  | .object ms =>
    if Members.repeatsAny ms fieldNames then none
    else assemble ms (listUnder "all" ms) (listUnder "any" ms) (partUnder "not" ms)
  | .array xs =>
    if xs.length ≤ fieldNames.length then
      assemble (fieldNames.zip xs) (listAmong "all" fieldNames xs) (listAmong "any" fieldNames xs)
        (partAmong "not" fieldNames xs)
    else none
  | _ => none

/-- The optional parts under a name. -/
def listUnder (name : String) : Members → Option (Option (List Condition))
  | [] => some none
  | (k, d) :: ms => if name = k then optionalList d else listUnder name ms

/-- The optional part under a name. -/
def partUnder (name : String) : Members → Option (Option Condition)
  | [] => some none
  | (k, d) :: ms =>
    if name = k then (if d.isNull then some none else (ofDocument? d).map some)
    else partUnder name ms

/-- The optional parts at the place of a name. -/
def listAmong (name : String) : List String → List Document → Option (Option (List Condition))
  | k :: ks, d :: ds => if name = k then optionalList d else listAmong name ks ds
  | [], _ => some none
  | _ :: _, [] => some none

/-- The optional part at the place of a name. -/
def partAmong (name : String) : List String → List Document → Option (Option Condition)
  | k :: ks, d :: ds =>
    if name = k then (if d.isNull then some none else (ofDocument? d).map some)
    else partAmong name ks ds
  | [], _ => some none
  | _ :: _, [] => some none

/-- Parts, or `null`. -/
def optionalList : Document → Option (Option (List Condition))
  | .null => some none
  | .array xs => (ofDocuments? xs).map some
  | _ => none

/-- Every document read as a condition. -/
def ofDocuments? : List Document → Option (List Condition)
  | [] => some []
  | d :: ds => (ofDocument? d).bind fun c => (ofDocuments? ds).map (c :: ·)

end

/-! ## The fields that hold conditions -/

theorem ofDocuments?_eq (ds : List Document) :
    ofDocuments? ds = Document.readAll ofDocument? ds := by
  induction ds with
  | nil => simp [ofDocuments?, Document.readAll]
  | cons d ds ih => simp [ofDocuments?, Document.readAll, ih]

private theorem optionalList_eq (d : Document) :
    optionalList d =
      if d.isNull then some none else (d.list? ofDocument?).map some := by
  cases d <;> simp [optionalList, Document.isNull, Document.list?, ofDocuments?_eq]

/-- A list of parts is looked up like any other field. -/
theorem listUnder_eq (name : String) (ms : Members) :
    listUnder name ms = ms.optional name (Document.list? ofDocument?) := by
  induction ms with
  | nil => simp [listUnder, Members.optional, Members.find?, Entries.get?]
  | cons m ms ih => rw [listUnder, Members.optional_cons, ih, optionalList_eq]

/-- A part is looked up like any other field. -/
theorem partUnder_eq (name : String) (ms : Members) :
    partUnder name ms = ms.optional name ofDocument? := by
  induction ms with
  | nil => simp [partUnder, Members.optional, Members.find?, Entries.get?]
  | cons m ms ih => rw [partUnder, Members.optional_cons, ih]

private theorem listAmong_eq (name : String) (ks : List String) (ds : List Document) :
    listAmong name ks ds =
      Members.optional (ks.zip ds) name (Document.list? ofDocument?) := by
  induction ks generalizing ds with
  | nil => simp [listAmong, Members.optional, Members.find?, Entries.get?]
  | cons k ks ih =>
    cases ds with
    | nil => simp [listAmong, Members.optional, Members.find?, Entries.get?]
    | cons d ds => rw [listAmong, List.zip_cons_cons, Members.optional_cons, ih, optionalList_eq]

private theorem partAmong_eq (name : String) (ks : List String) (ds : List Document) :
    partAmong name ks ds = Members.optional (ks.zip ds) name ofDocument? := by
  induction ks generalizing ds with
  | nil => simp [partAmong, Members.optional, Members.find?, Entries.get?]
  | cons k ks ih =>
    cases ds with
    | nil => simp [partAmong, Members.optional, Members.find?, Entries.get?]
    | cons d ds => rw [partAmong, List.zip_cons_cons, Members.optional_cons, ih]

/-- A condition is a record whose parts are conditions. -/
theorem ofDocument?_eq (d : Document) :
    ofDocument? d = (d.record? fieldNames).bind fun ms =>
      assemble ms (ms.optional "all" (Document.list? ofDocument?))
        (ms.optional "any" (Document.list? ofDocument?)) (ms.optional "not" ofDocument?) := by
  cases d with
  | object ms =>
    rw [ofDocument?, Document.record?]
    split <;> simp [listUnder_eq, partUnder_eq]
  | array xs =>
    rw [ofDocument?, Document.record?]
    split <;> simp [listAmong_eq, partAmong_eq]
  | _ => simp [ofDocument?, Document.record?]

/-! ## Writing -/

mutual

/-- The JSON of a condition. -/
def toJson : Condition → Json
  | leaf name operator value =>
    .object ([("variable", .string name), ("operator", .string operator.name)] ++
      Json.optionalMember "value" value)
  | all parts => .object [("all", .array (toJsons parts))]
  | any parts => .object [("any", .array (toJsons parts))]
  | not part => .object [("not", toJson part)]

/-- The JSON of every condition. -/
def toJsons : List Condition → List Json
  | [] => []
  | part :: rest => toJson part :: toJsons rest

end

end Onboarding.Condition
