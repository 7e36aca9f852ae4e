import Onboarding.Json.Basic

/-!
# Onboarding — records in JSON

The rules by which typed values are read from documents and written as values.

A record is an object with named members or an array of its fields in their
declared order. Among an object's members the record's own names may not be
repeated and other members are ignored. A trailing field of an array may be
missing where the field has a default, but there may be no further items. A
tagged record carries the name of its alternative in one member, or in the
first item; it is read only when all of it is readable.

Where a tag or the first fit of several alternatives has to be decided before a
part is read, that part is set aside and read by looser rules afterwards; an
`Access` says which ones. A tag set aside may be the number of its alternative.

Reading is by `Option`: a document that does not fit has no value.

## Results

* `Members.required_cons`, `Members.optional_cons`, `Members.withDefault_cons` — a
  field is looked up member by member.
-/

namespace Onboarding

/-- The members of a record that is being read. -/
abbrev Members := List (String × Document)

namespace Members

/-- The document under a name. -/
def find? (ms : Members) (name : String) : Option Document := Entries.get? name ms

/-- Whether one of the names stands at more than one member. -/
def repeatsAny (ms : Members) (names : List String) : Bool :=
  names.any fun name => decide (1 < (ms.filter fun m => m.1 = name).length)

/-- A field that must be there. -/
def required {α : Type} (ms : Members) (name : String) (read : Document → Option α) : Option α :=
  (ms.find? name).bind read

/-- A field that may be missing, and then has a default. -/
def withDefault {α : Type} (ms : Members) (name : String) (default : α)
    (read : Document → Option α) : Option α :=
  match ms.find? name with
  | none => some default
  | some d => read d

/-- A field that may be missing or `null`. -/
def optional {α : Type} (ms : Members) (name : String) (read : Document → Option α) :
    Option (Option α) :=
  match ms.find? name with
  | none | some .null => some none
  | some d => (read d).map some

end Members

/-- How a reader comes upon a document. -/
inductive Access where
  /-- It is read where it stands. -/
  | direct
  /-- It is part of a tagged record and was set aside until the tag was known. -/
  | tagged
  /-- It is part of something that is tried as one alternative after the other. -/
  | tried
deriving DecidableEq

namespace Document

/-! ## Records -/

/-- The members of a record with these field names. -/
def record? (names : List String) : Document → Option Members
  | object ms => if Members.repeatsAny ms names then none else some ms
  | array xs => if xs.length ≤ names.length then some (names.zip xs) else none
  | _ => none

/-- The alternative that a tag names, or numbers where it was set aside. -/
def alternative? (access : Access) (alternatives : List String) : Document → Option String
  | string s => some s
  | number n =>
    match access with
    | .direct => none
    | .tagged | .tried => n.toNat?.bind (alternatives[·]?)
  | _ => none

/-- The document under the tag of a readable record and the record without it. -/
def cutTag? (tag : String) (d : Document) : Option (Document × Document) :=
  if !d.isReadable then none
  else match d with
    | object ms =>
      match ms.filter (fun m => m.1 = tag) with
      | [(_, t)] => some (t, object (ms.filter fun m => m.1 ≠ tag))
      | _ => none
    | array (t :: rest) => some (t, array rest)
    | _ => none

/-- The alternative of a tagged record and the record without its tag. -/
def tagged? (access : Access) (tag : String) (alternatives : List String) (d : Document) :
    Option (String × Document) :=
  (d.cutTag? tag).bind fun (t, rest) => (alternative? access alternatives t).map (·, rest)

/-- Whether the rest of a tagged record fits an alternative without fields. -/
def isFieldless : Document → Bool
  | object _ => true
  | array xs => xs.isEmpty
  | _ => false

/-- The first of two alternatives that fits. -/
def firstOf {α : Type} (a : Option α) (b : Unit → Option α) : Option α :=
  match a with
  | some x => some x
  | none => b ()

/-! ## Fields -/

/-- A string. -/
def toString? : Document → Option String
  | string s => some s
  | _ => none

/-- A truth value. -/
def toBool? : Document → Option Bool
  | bool b => some b
  | _ => none

/-- A natural number written as an integer. -/
def toNat? : Document → Option Nat
  | number n => n.toNat?
  | _ => none

/-- Whether the document is `null`. -/
def isNull : Document → Bool
  | null => true
  | _ => false

/-- Every document read in turn. -/
def readAll {α : Type} (read : Document → Option α) : List Document → Option (List α)
  | [] => some []
  | d :: ds => (read d).bind fun x => (readAll read ds).map (x :: ·)

/-- An array, item by item. -/
def list? {α : Type} (read : Document → Option α) : Document → Option (List α)
  | array xs => readAll read xs
  | _ => none

/-- An object of values under free names. -/
def table? : Document → Option (Table Json)
  | object ms => (toMembers? ms).map Table.ofList
  | _ => none

/-- Every member's value read in turn. -/
def readMembers {α : Type} (read : Document → Option α) : Members → Option (List (String × α))
  | [] => some []
  | (k, d) :: ms => (read d).bind fun x => (readMembers read ms).map ((k, x) :: ·)

/-- An object of like values under free names. -/
def tableOf? {α : Type} (read : Document → Option α) : Document → Option (Table α)
  | object ms => (readMembers read ms).map Table.ofList
  | _ => none

/-- The name of an alternative without fields: a string, or an object that holds `null` under the
name and nothing else. In a tagged record an empty object will do for the `null`. -/
def name? (access : Access) : Document → Option String
  | string s => some s
  | object [(s, null)] => some s
  | object [(s, object [])] => if access = .tagged then some s else none
  | _ => none

/-- Where nothing is set aside, only a string is a tag. -/
theorem alternative?_direct (alternatives : List String) (d : Document) :
    alternative? .direct alternatives d = d.toString? := by
  cases d <;> rfl

end Document

namespace Members

theorem required_cons {α : Type} (k name : String) (d : Document) (ms : Members)
    (read : Document → Option α) : required ((k, d) :: ms) name read =
      if name = k then read d else required ms name read := by
  simp only [required, find?, Entries.get?]
  by_cases h : name = k <;> simp [h]

theorem optional_cons {α : Type} (k name : String) (d : Document) (ms : Members)
    (read : Document → Option α) : optional ((k, d) :: ms) name read =
      if name = k then (if d.isNull then some none else (read d).map some)
      else optional ms name read := by
  simp only [optional, find?, Entries.get?]
  by_cases h : name = k
  · subst h
    cases d <;> simp [Document.isNull]
  · simp [h]

theorem withDefault_cons {α : Type} (k name : String) (d : Document) (ms : Members) (default : α)
    (read : Document → Option α) : withDefault ((k, d) :: ms) name default read =
      if name = k then read d else withDefault ms name default read := by
  simp only [withDefault, find?, Entries.get?]
  by_cases h : name = k <;> simp [h]

end Members

/-! ## Writing -/

namespace Json

/-- A member that is written only if there is a value. -/
def optionalMember (name : String) : Option Json → List (String × Json)
  | none => []
  | some v => [(name, v)]

/-- A member that is written only if a condition holds. -/
def memberIf (condition : Bool) (name : String) (v : Json) : List (String × Json) :=
  if condition then [(name, v)] else []

/-- A table that is written only if it has entries. -/
def tableMember (name : String) (t : Table Json) : List (String × Json) :=
  memberIf (!t.isEmpty) name (ofTable t)

/-- A list of strings. -/
def strings (xs : List String) : Json := array (xs.map string)

/-- A value, or `null` if there is none. -/
def orNull {α : Type} (write : α → Json) : Option α → Json
  | none => null
  | some x => write x

end Json

end Onboarding
