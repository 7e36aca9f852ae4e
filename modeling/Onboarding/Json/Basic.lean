import Onboarding.Table
import Onboarding.Number.Binary64

/-!
# Onboarding — JSON values and documents

A `Json` value is what programs store and compare. A `Document` is what a JSON
text says before a reader has decided what it wants of it: members stand in
their order, repeated or not, and a part that is well-formed but denotes no
value (a number beyond the doubles, a lone surrogate, too deep a nesting) is
`unreadable`, which matters only to a reader that looks at it.

Integers and doubles are different numbers even where their values agree; only
`Number.toFinite` forgets the difference.

## Results

* `Json.toJson?_toDocument` — a canonical value survives as a document.
* `Document.canonical_of_toJson?` — what a document yields is canonical.
-/

namespace Onboarding

/-! ## Numbers -/

/-- A JSON number: an integer of the 64-bit ranges or a double. -/
inductive Number where
  | int (value : Int)
  | float (value : Finite)
deriving DecidableEq

namespace Number

/-- The nearest double. -/
def toFinite : Number → Finite
  | int n => Finite.ofInt n
  | float x => x

/-- The natural number, if it is written as one. -/
def toNat? : Number → Option Nat
  | int (.ofNat n) => some n
  | _ => none

/-- Whether two numbers are of one kind and have one value. -/
def same : Number → Number → Bool
  | int m, int n => m == n
  | float x, float y => x.same y
  | _, _ => false

end Number

/-! ## Values -/

/-- A JSON value. The members of an object stand in ascending order of their keys when the value
is canonical, see `Json.Canonical`. -/
inductive Json where
  | null
  | bool (value : Bool)
  | number (value : Number)
  | string (value : String)
  | array (items : List Json)
  | object (members : List (String × Json))

namespace Json

instance : Inhabited Json := ⟨null⟩

/-- An integer. -/
def int (n : Int) : Json := number (.int n)

/-- The text of a string. -/
def toString? : Json → Option String
  | string s => some s
  | _ => none

/-- The nearest double of a number. -/
def toFinite? : Json → Option Finite
  | number n => some n.toFinite
  | _ => none

/-- Whether the value is `null`. -/
def isNull : Json → Bool
  | null => true
  | _ => false

/-- An object with the entries of a table. -/
def ofTable (t : Table Json) : Json := object t.entries

mutual

/-- Whether two values are equal: numbers by kind and value, everything else part by part. -/
def same : Json → Json → Bool
  | null, null => true
  | bool a, bool b => a == b
  | number a, number b => a.same b
  | string a, string b => a == b
  | array xs, array ys => sameItems xs ys
  | object xs, object ys => sameMembers xs ys
  | _, _ => false

/-- `same` item by item. -/
def sameItems : List Json → List Json → Bool
  | [], [] => true
  | x :: xs, y :: ys => same x y && sameItems xs ys
  | _, _ => false

/-- `same` member by member, with equal keys. -/
def sameMembers : List (String × Json) → List (String × Json) → Bool
  | [], [] => true
  | (k, x) :: xs, (l, y) :: ys => k == l && same x y && sameMembers xs ys
  | _, _ => false

end

mutual

/-- The members of every object inside stand in ascending order of their keys. -/
def Canonical : Json → Prop
  | array xs => CanonicalItems xs
  | object ms => Ascending ms ∧ CanonicalMembers ms
  | _ => True

/-- Every item is canonical. -/
def CanonicalItems : List Json → Prop
  | [] => True
  | x :: xs => Canonical x ∧ CanonicalItems xs

/-- Every member's value is canonical. -/
def CanonicalMembers : List (String × Json) → Prop
  | [] => True
  | (_, x) :: ms => Canonical x ∧ CanonicalMembers ms

end

end Json

/-! ## Documents -/

/-- What a JSON text says, part by part. -/
inductive Document where
  | null
  | bool (value : Bool)
  | number (value : Number)
  | string (value : String)
  | array (items : List Document)
  | object (members : List (String × Document))
  /-- A well-formed part that denotes no value. -/
  | unreadable

mutual

/-- The document that says the value. -/
def Json.toDocument : Json → Document
  | .null => .null
  | .bool b => .bool b
  | .number n => .number n
  | .string s => .string s
  | .array xs => .array (Json.toDocuments xs)
  | .object ms => .object (Json.toDocumentMembers ms)

/-- `Json.toDocument` item by item. -/
def Json.toDocuments : List Json → List Document
  | [] => []
  | x :: xs => x.toDocument :: Json.toDocuments xs

/-- `Json.toDocument` member by member. -/
def Json.toDocumentMembers : List (String × Json) → List (String × Document)
  | [] => []
  | (k, x) :: ms => (k, x.toDocument) :: Json.toDocumentMembers ms

end

namespace Document

instance : Inhabited Document := ⟨null⟩

mutual

/-- The value a document says, unless a part of it is unreadable. Of repeated members the last one
counts. -/
def toJson? : Document → Option Json
  | null => some .null
  | bool b => some (.bool b)
  | number n => some (.number n)
  | string s => some (.string s)
  | array xs => (toItems? xs).map .array
  | object ms => (toMembers? ms).map fun ms => .object (Entries.ofList ms)
  | unreadable => none

/-- The values of all items. -/
def toItems? : List Document → Option (List Json)
  | [] => some []
  | x :: xs => (toJson? x).bind fun v => (toItems? xs).map (v :: ·)

/-- The values of all members. -/
def toMembers? : List (String × Document) → Option (List (String × Json))
  | [] => some []
  | (k, x) :: ms => (toJson? x).bind fun v => (toMembers? ms).map ((k, v) :: ·)

end

mutual

/-- Whether no part is unreadable. -/
def isReadable : Document → Bool
  | array xs => areReadable xs
  | object ms => membersReadable ms
  | unreadable => false
  | _ => true

/-- `isReadable` of every item. -/
def areReadable : List Document → Bool
  | [] => true
  | x :: xs => isReadable x && areReadable xs

/-- `isReadable` of every member. -/
def membersReadable : List (String × Document) → Bool
  | [] => true
  | (_, x) :: ms => isReadable x && membersReadable ms

end

end Document

/-! ## Canonical values and documents -/

/-- Entries that already ascend are their own table. -/
theorem Entries.insertAll_append {α : Type} {entries more : List (String × α)}
    (h : Ascending (entries ++ more)) : Entries.insertAll entries more = entries ++ more := by
  induction more generalizing entries with
  | nil => simp [Entries.insertAll]
  | cons e rest ih =>
    have hLast : ∀ x ∈ entries, x.1 < e.1 := fun x hx =>
      (List.pairwise_append.mp h).2.2 x hx e List.mem_cons_self
    have hInsert : Entries.insert e.1 e.2 entries = entries ++ [e] := by
      clear h ih
      induction entries with
      | nil => rfl
      | cons x xs ihx =>
        have hx := hLast x List.mem_cons_self
        have hNotLt : ¬ e.1 < x.1 := String.lt_asymm hx
        have hNe : e.1 ≠ x.1 := fun heq => String.lt_irrefl e.1 (heq ▸ hx)
        obtain ⟨k, v⟩ := x
        simp only [Entries.insert, hNotLt, if_false, hNe, List.cons_append]
        rw [ihx fun y hy => hLast y (List.mem_cons_of_mem _ hy)]
    show Entries.insertAll (Entries.insert e.1 e.2 entries) rest = _
    rw [hInsert, ih (by simpa using h)]
    simp

/-- Entries that already ascend are their own table. -/
theorem Entries.ofList_eq_self {α : Type} {entries : List (String × α)} (h : Ascending entries) :
    Entries.ofList entries = entries := by
  have hAppend : Entries.insertAll [] entries = [] ++ entries :=
    Entries.insertAll_append (by simpa using h)
  simpa [Entries.ofList] using hAppend

mutual

theorem Json.toJson?_toDocument : ∀ {v : Json}, v.Canonical → v.toDocument.toJson? = some v
  | .null, _ => rfl
  | .bool _, _ => rfl
  | .number _, _ => rfl
  | .string _, _ => rfl
  | .array xs, h => by
    simp only [Json.Canonical] at h
    simp [Json.toDocument, Document.toJson?, Json.toItems?_toDocuments h]
  | .object ms, h => by
    simp only [Json.Canonical] at h
    simp [Json.toDocument, Document.toJson?, Json.toMembers?_toDocumentMembers h.2,
      Entries.ofList_eq_self h.1]

theorem Json.toItems?_toDocuments : ∀ {xs : List Json}, Json.CanonicalItems xs →
    Document.toItems? (Json.toDocuments xs) = some xs
  | [], _ => rfl
  | x :: xs, h => by
    simp only [Json.CanonicalItems] at h
    simp [Json.toDocuments, Document.toItems?, Json.toJson?_toDocument h.1,
      Json.toItems?_toDocuments h.2]

theorem Json.toMembers?_toDocumentMembers : ∀ {ms : List (String × Json)},
    Json.CanonicalMembers ms → Document.toMembers? (Json.toDocumentMembers ms) = some ms
  | [], _ => rfl
  | (k, x) :: ms, h => by
    simp only [Json.CanonicalMembers] at h
    simp [Json.toDocumentMembers, Document.toMembers?, Json.toJson?_toDocument h.1,
      Json.toMembers?_toDocumentMembers h.2]

end

namespace Json

theorem canonicalMembers_iff {ms : List (String × Json)} :
    CanonicalMembers ms ↔ ∀ e ∈ ms, Canonical e.2 := by
  induction ms with
  | nil => simp [CanonicalMembers]
  | cons e rest ih =>
    obtain ⟨k, x⟩ := e
    simp [CanonicalMembers, ih]

theorem canonicalMembers_insertAll {entries more : List (String × Json)}
    (h : CanonicalMembers entries) (hm : CanonicalMembers more) :
    CanonicalMembers (Entries.insertAll entries more) := by
  refine canonicalMembers_iff.mpr fun x hx => ?_
  rcases Entries.mem_insertAll hx with hx | hx
  · exact canonicalMembers_iff.mp h x hx
  · exact canonicalMembers_iff.mp hm x hx

end Json

mutual

theorem Document.canonical_of_toJson? : ∀ {d : Document} {v : Json},
    d.toJson? = some v → v.Canonical
  | .null, _, h => by simp_all [Document.toJson?]; subst h; trivial
  | .bool _, _, h => by simp_all [Document.toJson?]; subst h; trivial
  | .number _, _, h => by simp_all [Document.toJson?]; subst h; trivial
  | .string _, _, h => by simp_all [Document.toJson?]; subst h; trivial
  | .unreadable, _, h => by simp [Document.toJson?] at h
  | .array xs, v, h => by
    simp only [Document.toJson?, Option.map_eq_some_iff] at h
    obtain ⟨vs, hvs, rfl⟩ := h
    simpa only [Json.Canonical] using Document.canonicalItems_of_toItems? hvs
  | .object ms, v, h => by
    simp only [Document.toJson?, Option.map_eq_some_iff] at h
    obtain ⟨vs, hvs, rfl⟩ := h
    simp only [Json.Canonical]
    exact ⟨Entries.ascending_ofList vs, Json.canonicalMembers_insertAll
      (by simp [Json.CanonicalMembers]) (Document.canonicalMembers_of_toMembers? hvs)⟩

theorem Document.canonicalItems_of_toItems? : ∀ {xs : List Document} {vs : List Json},
    Document.toItems? xs = some vs → Json.CanonicalItems vs
  | [], _, h => by simp [Document.toItems?] at h; subst h; simp [Json.CanonicalItems]
  | x :: xs, _, h => by
    simp only [Document.toItems?, Option.bind_eq_some_iff, Option.map_eq_some_iff] at h
    obtain ⟨v, hv, vs, hvs, rfl⟩ := h
    simp only [Json.CanonicalItems]
    exact ⟨Document.canonical_of_toJson? hv, Document.canonicalItems_of_toItems? hvs⟩

theorem Document.canonicalMembers_of_toMembers? : ∀ {ms : List (String × Document)}
    {vs : List (String × Json)}, Document.toMembers? ms = some vs → Json.CanonicalMembers vs
  | [], _, h => by simp [Document.toMembers?] at h; subst h; simp [Json.CanonicalMembers]
  | (k, x) :: ms, _, h => by
    simp only [Document.toMembers?, Option.bind_eq_some_iff, Option.map_eq_some_iff] at h
    obtain ⟨v, hv, vs, hvs, rfl⟩ := h
    simp only [Json.CanonicalMembers]
    exact ⟨Document.canonical_of_toJson? hv, Document.canonicalMembers_of_toMembers? hvs⟩

end

end Onboarding
