import Onboarding.Proofs.Json.Extent
import Onboarding.Proofs.Wire.Canonical

/-!
# Onboarding — what is written of a flow is no deeper than what was read of it

A record is written as an object, whether it was read from an object or an array,
and its fields are written at the depth at which they were read; what is written
of a name or of a missing field is a string, a `null` or nothing. So what is
written of a value that was read of a document nests no deeper than the document
and has no numbers that are not in it (`ConfinedAt`).

A list that is missing is read as the empty one, which is deeper than nothing:
it has to be left out when it is written, as the empty lists of elements and
flows are.

## Results

* `confinedAt_toJson?`, `confinedAt_list?`, `confinedAt_table?` — values, lists and tables.
* `fits_record` — a record fits where it was read if its fields fit.
* `Element.confined`, `Flow.confined` — elements and flows.
-/

namespace Onboarding

variable {α : Type} {P : Number → Prop} {depth : Nat}

/-- What is written of what is read of a document nests no deeper and has no other numbers. -/
def ConfinedAt (read : Document → Option α) (write : α → Json) (d : Document) : Prop :=
  ∀ x, read d = some x → ∀ (P : Number → Prop) (depth : Nat),
    d.Fits P depth → (write x).toDocument.Fits P depth

/-! ## Values -/

mutual

/-- A value is written at the depths at which it was read. -/
theorem Document.Fits.of_toJson? : ∀ {d : Document} {v : Json} {depth : Nat},
    d.Fits P depth → d.toJson? = some v → v.toDocument.Fits P depth
  | .null, _, _, h, hRead => by cases hRead; exact h
  | .bool _, _, _, h, hRead => by cases hRead; exact h
  | .number _, _, _, h, hRead => by cases hRead; exact h
  | .string _, _, _, h, hRead => by cases hRead; exact h
  | .unreadable, _, _, _, hRead => by cases hRead
  | .array xs, _, _, h, hRead => by
    obtain ⟨inner, rfl, hItems⟩ := h.items
    obtain ⟨vs, hvs, rfl⟩ := Option.map_eq_some_iff.mp hRead
    exact .array (Document.Fits.of_toItems? hItems hvs)
  | .object ms, _, _, h, hRead => by
    obtain ⟨inner, rfl, hMembers⟩ := h.members
    obtain ⟨vs, hvs, rfl⟩ := Option.map_eq_some_iff.mp hRead
    refine .object fun m hm => ?_
    rw [Json.toDocumentMembers_eq] at hm
    obtain ⟨e, he, rfl⟩ := List.mem_map.mp hm
    exact Document.Fits.of_toMembers? hMembers hvs e (Entries.mem_of_mem_ofList he)

theorem Document.Fits.of_toItems? : ∀ {xs : List Document} {vs : List Json} {depth : Nat},
    (∀ x ∈ xs, x.Fits P depth) → Document.toItems? xs = some vs →
    ∀ d ∈ Json.toDocuments vs, d.Fits P depth
  | [], _, _, _, hRead => by cases hRead; nofun
  | x :: xs, _, _, h, hRead => by
    obtain ⟨v, hv, hRest⟩ := Option.bind_eq_some_iff.mp hRead
    obtain ⟨vs, hvs, rfl⟩ := Option.map_eq_some_iff.mp hRest
    obtain ⟨hFirst, hMore⟩ := List.forall_mem_cons.mp h
    exact List.forall_mem_cons.mpr
      ⟨Document.Fits.of_toJson? hFirst hv, Document.Fits.of_toItems? hMore hvs⟩

theorem Document.Fits.of_toMembers? : ∀ {ms : List (String × Document)}
    {vs : List (String × Json)} {depth : Nat}, (∀ m ∈ ms, m.2.Fits P depth) →
    Document.toMembers? ms = some vs → ∀ e ∈ vs, e.2.toDocument.Fits P depth
  | [], _, _, _, hRead => by cases hRead; nofun
  | (k, x) :: ms, _, _, h, hRead => by
    obtain ⟨v, hv, hRest⟩ := Option.bind_eq_some_iff.mp hRead
    obtain ⟨vs, hvs, rfl⟩ := Option.map_eq_some_iff.mp hRest
    obtain ⟨hFirst, hMore⟩ := List.forall_mem_cons.mp h
    exact List.forall_mem_cons.mpr
      ⟨Document.Fits.of_toJson? hFirst hv, Document.Fits.of_toMembers? hMore hvs⟩

end

/-- Values are written as they are. -/
theorem confinedAt_toJson? (d : Document) : ConfinedAt Document.toJson? id d :=
  fun _ hRead _ _ h => h.of_toJson? hRead

/-- A table is the object that it was read of. -/
theorem confinedAt_table? (d : Document) : ConfinedAt Document.table? Json.ofTable d := by
  intro t hRead P depth h
  cases d with
  | object ms =>
    -- the table's entries are the members of the value
    obtain ⟨vs, hvs, rfl⟩ := Option.map_eq_some_iff.mp hRead
    refine h.of_toJson? ?_
    rw [Document.toJson?, hvs]
    rfl
  | _ => cases hRead

/-- What is written of the items of a list fits where they were read. -/
theorem fits_readAll {read : Document → Option α} {write : α → Json} {items : List Document}
    {xs : List α} (hRead : Document.readAll read items = some xs)
    (hConfined : ∀ item ∈ items, ConfinedAt read write item)
    (h : ∀ item ∈ items, item.Fits P depth) :
    ∀ d ∈ Json.toDocuments (xs.map write), d.Fits P depth := by
  induction items generalizing xs with
  | nil =>
    cases hRead
    nofun
  | cons item items ih =>
    obtain ⟨x, hItem, hRead⟩ := Option.bind_eq_some_iff.mp hRead
    obtain ⟨rest, hRest, rfl⟩ := Option.map_eq_some_iff.mp hRead
    obtain ⟨hFirst, hMore⟩ := List.forall_mem_cons.mp h
    obtain ⟨hWrite, hOthers⟩ := List.forall_mem_cons.mp hConfined
    exact List.forall_mem_cons.mpr ⟨hWrite x hItem P depth hFirst, ih hRest hOthers hMore⟩

/-- A list is confined if its items are, all of which are smaller. -/
theorem confinedAt_list? {read : Document → Option α} {write : α → Json} {d : Document}
    (hConfined : ∀ item, sizeOf item < sizeOf d → ConfinedAt read write item) :
    ConfinedAt (Document.list? read) (fun xs => .array (xs.map write)) d := by
  intro xs hRead P depth h
  cases d with
  | array items =>
    obtain ⟨inner, rfl, hItems⟩ := h.items
    refine .array (fits_readAll hRead (fun item hMem => hConfined item ?_) hItems)
    have hLess := List.sizeOf_lt_of_mem hMem
    rw [Document.array.sizeOf_spec]
    omega
  | _ => cases hRead

/-! ## Fields -/

/-- The value of a field fits, if it has one. -/
def FieldFits (P : Number → Prop) (depth : Nat) (v : Option Json) : Prop :=
  ∀ w, v = some w → w.toDocument.Fits P depth

/-- The values of all fields fit. -/
def FieldsFit (P : Number → Prop) (depth : Nat) : List (String × Option Json) → Prop
  | [] => True
  | (_, v) :: fields => FieldFits P depth v ∧ FieldsFit P depth fields

theorem fieldFits_none : FieldFits P depth none := nofun

theorem fieldFits_some {v : Json} (h : v.toDocument.Fits P depth) :
    FieldFits P depth (some v) := by
  intro w hw
  cases hw
  exact h

/-- A string has no depth and no numbers. -/
theorem fieldFits_string (s : String) : FieldFits P depth (some (.string s)) :=
  fieldFits_some .string

theorem fieldFits_strings (s : Option String) : FieldFits P depth (s.map .string) := by
  cases s with
  | none => exact fieldFits_none
  | some s => exact fieldFits_string s

/-- A record is one deeper than its fields. -/
theorem fits_written {fields : List (String × Option Json)} (h : FieldsFit P depth fields) :
    (Document.object (Members.written fields)).Fits P (depth + 1) := by
  refine .object ?_
  induction fields with
  | nil => nofun
  | cons f fields ih =>
    obtain ⟨name, v⟩ := f
    obtain ⟨hField, hFields⟩ := h
    cases v with
    | none => exact ih hFields
    | some v => exact List.forall_mem_cons.mpr ⟨hField v rfl, ih hFields⟩

/-- The members of a record stand one deeper than the record, whether it is an object or an array.
-/
theorem fits_of_record? {d : Document} {names : List String} {ms : Members}
    (hRecord : d.record? names = some ms) (h : d.Fits P depth) :
    ∃ inner, depth = inner + 1 ∧ ∀ m ∈ ms, m.2.Fits P inner := by
  cases d with
  | object members =>
    obtain ⟨inner, rfl, hMembers⟩ := h.members
    simp only [Document.record?, Option.ite_none_left_eq_some, Option.some.injEq] at hRecord
    exact ⟨inner, rfl, hRecord.2 ▸ hMembers⟩
  | array items =>
    obtain ⟨inner, rfl, hItems⟩ := h.items
    simp only [Document.record?, Option.ite_none_right_eq_some, Option.some.injEq] at hRecord
    obtain ⟨-, rfl⟩ := hRecord
    exact ⟨inner, rfl, fun m hm => hItems m.2 (List.of_mem_zip hm).2⟩
  | _ => cases hRecord

/-- A record fits where it was read if its fields fit where theirs were. -/
theorem fits_record {d : Document} {names : List String} {ms : Members}
    {fields : List (String × Option Json)} (hRecord : d.record? names = some ms)
    (h : d.Fits P depth)
    (hFields : ∀ inner, (∀ m ∈ ms, m.2.Fits P inner) → FieldsFit P inner fields) :
    (Document.object (Members.written fields)).Fits P depth := by
  obtain ⟨inner, rfl, hMembers⟩ := fits_of_record? hRecord h
  exact fits_written (hFields inner hMembers)

/-- A tagged record is a container, and without its tag it fits where it fitted with it. -/
theorem fits_of_tagged? {d rest : Document} {access : Access} {tag alternative : String}
    {alternatives : List String}
    (hTagged : d.tagged? access tag alternatives = some (alternative, rest)) (h : d.Fits P depth) :
    ∃ inner, depth = inner + 1 ∧ rest.Fits P (inner + 1) := by
  obtain ⟨⟨t, untagged⟩, hCut, hTag⟩ := Option.bind_eq_some_iff.mp hTagged
  obtain ⟨_, -, hPair⟩ := Option.map_eq_some_iff.mp hTag
  cases hPair
  unfold Document.cutTag? at hCut
  rw [Option.ite_none_left_eq_some] at hCut
  obtain ⟨-, hCut⟩ := hCut
  -- cutting the tag leaves a part of the members, or of the items, as they stand
  split at hCut
  · obtain ⟨inner, rfl, hMembers⟩ := h.members
    split at hCut
    · cases hCut
      exact ⟨inner, rfl, .object fun m hm => hMembers m (List.mem_of_mem_filter hm)⟩
    · cases hCut
  · obtain ⟨inner, rfl, hItems⟩ := h.items
    cases hCut
    exact ⟨inner, rfl, .array (List.forall_mem_cons.mp hItems).2⟩
  · cases hCut

namespace Members

variable {ms : Members} {name : String} {read : Document → Option α} {write : α → Json}

/-- A member that is found fits where all members do. -/
theorem fits_of_find? {d : Document} (hFind : ms.find? name = some d)
    (h : ∀ m ∈ ms, m.2.Fits P depth) : d.Fits P depth := by
  obtain ⟨key, hMem⟩ := exists_mem_of_find? hFind
  exact h (key, d) hMem

/-- A required field is written where it was read. -/
theorem required_fits {x : α} (hRead : ms.required name read = some x)
    (hConfined : ∀ d, ms.find? name = some d → ConfinedAt read write d)
    (h : ∀ m ∈ ms, m.2.Fits P depth) : FieldFits P depth (some (write x)) := by
  obtain ⟨d, hFind, hValue⟩ := Option.bind_eq_some_iff.mp hRead
  exact fieldFits_some (hConfined d hFind x hValue P depth (fits_of_find? hFind h))

theorem optional_fits {x : Option α} (hRead : ms.optional name read = some x)
    (hConfined : ∀ d, ms.find? name = some d → ConfinedAt read write d)
    (h : ∀ m ∈ ms, m.2.Fits P depth) : FieldFits P depth (x.map write) := by
  cases x with
  | none => exact fieldFits_none
  | some x =>
    obtain ⟨d, hFind, -, hValue⟩ := optional_eq_some_some.mp hRead
    exact fieldFits_some (hConfined d hFind x hValue P depth (fits_of_find? hFind h))

/-- An optional value is written where it was read. -/
theorem value_fits {v : Option Json} (hRead : ms.optional name Document.toJson? = some v)
    (h : ∀ m ∈ ms, m.2.Fits P depth) : FieldFits P depth v := by
  have hFits := optional_fits hRead (fun d _ => confinedAt_toJson? d) h
  rwa [Option.map_id] at hFits

/-- A field that is left out where it is the default fits wherever its value was. -/
theorem withDefault_fits_or_skip {x default : α} (skip : Bool)
    (hRead : ms.withDefault name default read = some x)
    (hConfined : ∀ d, ms.find? name = some d → ConfinedAt read write d)
    (hSkip : x = default → skip = true) (h : ∀ m ∈ ms, m.2.Fits P depth) :
    FieldFits P depth (if !skip then some (write x) else none) := by
  cases skip with
  | true => exact fieldFits_none
  | false =>
    rw [withDefault] at hRead
    split at hRead
    · -- the default itself is never written
      cases hRead
      exact absurd (hSkip rfl) (by decide)
    · next d hFind =>
      exact fieldFits_some (hConfined d hFind x hRead P depth (fits_of_find? hFind h))

/-- A table that is empty is left out, every other one was read. -/
theorem table_fits {t : Table Json} (hRead : ms.withDefault name ∅ Document.table? = some t)
    (h : ∀ m ∈ ms, m.2.Fits P depth) :
    FieldFits P depth (if !t.isEmpty then some (Json.ofTable t) else none) :=
  withDefault_fits_or_skip t.isEmpty hRead (fun d _ => confinedAt_table? d)
    (fun hEmpty => by rw [hEmpty]; rfl) h

/-- A list that is empty is left out, of every other one the items were read. -/
theorem list_fits {xs : List α}
    (hRead : ms.withDefault name [] (Document.list? read) = some xs)
    (hConfined : ∀ d, ms.find? name = some d → ∀ item, sizeOf item < sizeOf d →
      ConfinedAt read write item)
    (h : ∀ m ∈ ms, m.2.Fits P depth) :
    FieldFits P depth (if !xs.isEmpty then some (.array (xs.map write)) else none) := by
  have hLists (d : Document) (hFind : ms.find? name = some d) :
      ConfinedAt (Document.list? read) (fun xs => .array (xs.map write)) d :=
    confinedAt_list? (hConfined d hFind)
  have hSkip (hEmpty : xs = []) : xs.isEmpty = true := by
    rw [hEmpty]
    rfl
  have hFits := withDefault_fits_or_skip xs.isEmpty hRead hLists hSkip h
  exact hFits

end Members

/-! ## Conditions and destinations -/

namespace Condition

/-- Of a condition nothing is written any deeper than it was read. -/
theorem confined (d : Document) : ConfinedAt ofDocument? toJson d := by
  intro c hRead P depth h
  rw [ofDocument?_eq] at hRead
  obtain ⟨ms, hRecord, hRead⟩ := Option.bind_eq_some_iff.mp hRead
  -- by recursion on the document: its fields and their items are smaller
  have hPart (name : String) (part : Document) (hFind : ms.find? name = some part) :
      ConfinedAt ofDocument? toJson part :=
    have hLess := Members.sizeOf_lt_of_find? hRecord hFind
    confined part
  have hParts (name : String) (part : Document) (hFind : ms.find? name = some part) :
      ConfinedAt (Document.list? ofDocument?) (fun xs => .array (xs.map toJson)) part :=
    confinedAt_list? fun item hItem =>
      have hLess := Nat.lt_trans hItem (Members.sizeOf_lt_of_find? hRecord hFind)
      confined item
  simp only [assemble, Option.bind_eq_bind, Option.bind_eq_some_iff] at hRead
  obtain ⟨name, hName, operator, hOperator, value, hValue, allOf, hAll, anyOf, hAny, notOf, hNot,
    hCase⟩ := hRead
  rw [toDocument_toJson]
  refine fits_record hRecord h fun inner hMembers => ?_
  split at hCase
  · cases hCase
    exact ⟨Members.optional_fits hAll (hParts "all") hMembers, trivial⟩
  · cases hCase
    exact ⟨Members.optional_fits hAny (hParts "any") hMembers, trivial⟩
  · cases hCase
    exact ⟨Members.optional_fits hNot (hPart "not") hMembers, trivial⟩
  · cases hCase
    exact ⟨fieldFits_string _, fieldFits_string _, Members.value_fits hValue hMembers, trivial⟩
  · cases hCase
termination_by sizeOf d

end Condition

namespace Destination

/-- A route is written as deep as its condition and its destination are. -/
theorem confinedAt_route? {d : Document}
    (h : ∀ part, sizeOf part < sizeOf d → ConfinedAt ofReadable? toJson part) :
    ConfinedAt route? routeToJson d := by
  intro route hRead P depth hFits
  rw [route?_eq] at hRead
  obtain ⟨ms, hRecord, hRead⟩ := Option.bind_eq_some_iff.mp hRead
  obtain ⟨condition, hCondition, hRead⟩ := Option.bind_eq_some_iff.mp hRead
  obtain ⟨destination, hDestination, rfl⟩ := Option.map_eq_some_iff.mp hRead
  rw [toDocument_routeToJson]
  refine fits_record hRecord hFits fun inner hMembers => ⟨?_, ?_, trivial⟩
  · exact Members.required_fits hCondition (fun part _ => Condition.confined part) hMembers
  · exact Members.required_fits hDestination
      (fun part hPart => h part (Members.sizeOf_lt_of_find? hRecord hPart)) hMembers

/-- Of a destination nothing is written any deeper, routes included. -/
theorem confinedAt_ofReadable? (d : Document) : ConfinedAt ofReadable? toJson d := by
  intro destination hRead P depth h
  -- by recursion on the document: a route is smaller than its table, a side than its branch
  have hSmaller (part : Document) (hLess : sizeOf part < sizeOf d) :
      ConfinedAt ofReadable? toJson part := confinedAt_ofReadable? part
  rw [ofReadable?_eq] at hRead
  split at hRead
  · cases hRead
    rw [toJson]
    exact .string
  · rcases Document.firstOf_eq_some_iff.mp hRead with hRead | ⟨-, hRead⟩
    · obtain ⟨ms, hRecord, hRead⟩ := Option.bind_eq_some_iff.mp hRead
      obtain ⟨routes, hRoutes, hRead⟩ := Option.bind_eq_some_iff.mp hRead
      obtain ⟨fallback, hFallback, rfl⟩ := Option.map_eq_some_iff.mp hRead
      rw [toDocument_routed]
      have hList (part : Document) (hPart : ms.find? "routes" = some part) :
          ConfinedAt (Document.list? route?) (fun routes => .array (routes.map routeToJson)) part :=
        confinedAt_list? fun item hItem => confinedAt_route? fun side hSide => hSmaller side (by
          have hLess := Members.sizeOf_lt_of_find? hRecord hPart
          omega)
      refine fits_record hRecord h fun inner hMembers => ⟨?_, ?_, trivial⟩
      · have hFits := Members.required_fits hRoutes hList hMembers
        exact hFits
      · exact Members.required_fits hFallback
          (fun part hPart => hSmaller part (Members.sizeOf_lt_of_find? hRecord hPart)) hMembers
    · obtain ⟨ms, hRecord, hRead⟩ := Option.bind_eq_some_iff.mp hRead
      obtain ⟨condition, hCondition, hRead⟩ := Option.bind_eq_some_iff.mp hRead
      obtain ⟨target, hTarget, hRead⟩ := Option.bind_eq_some_iff.mp hRead
      obtain ⟨otherwise, hOtherwise, rfl⟩ := Option.map_eq_some_iff.mp hRead
      have hPart (name : String) (part : Document) (hPart : ms.find? name = some part) :
          ConfinedAt ofReadable? toJson part :=
        hSmaller part (Members.sizeOf_lt_of_find? hRecord hPart)
      rw [toDocument_branch]
      refine fits_record hRecord h fun inner hMembers => ⟨?_, ?_, ?_, trivial⟩
      · exact Members.required_fits hCondition (fun part _ => Condition.confined part) hMembers
      · exact Members.required_fits hTarget (hPart "then") hMembers
      · exact Members.optional_fits hOtherwise (hPart "else") hMembers
termination_by sizeOf d

theorem confined (d : Document) : ConfinedAt ofDocument? toJson d := by
  intro destination hRead
  rw [ofDocument?, Option.ite_none_right_eq_some] at hRead
  exact confinedAt_ofReadable? d destination hRead.2

end Destination

/-! ## Elements -/

namespace Action

/-- The fields of an action fit where the rest of its record was read. -/
theorem fits_slots {tag : String} {rest : Document} {a : Action}
    (hRead : ofTagged? tag rest = some a) (h : rest.Fits P (depth + 1)) :
    FieldsFit P depth a.slots := by
  have hMembers {names : List String} {ms : Members} (hRecord : rest.record? names = some ms) :
      ∀ m ∈ ms, m.2.Fits P depth := by
    obtain ⟨inner, hDepth, hMembers⟩ := fits_of_record? hRecord h
    cases hDepth
    exact hMembers
  unfold ofTagged? at hRead
  -- one case per type, in the order in which the reader knows them
  split at hRead
  · cases (Option.ite_none_right_eq_some.mp hRead).2
    trivial
  · cases (Option.ite_none_right_eq_some.mp hRead).2
    trivial
  · simp only [Option.bind_eq_bind, Option.bind_eq_some_iff] at hRead
    obtain ⟨ms, hRecord, destination, hDestination, hSome⟩ := hRead
    cases hSome
    exact ⟨Members.required_fits hDestination (fun d _ => Destination.confined d)
      (hMembers hRecord), trivial⟩
  · simp only [Option.bind_eq_bind, Option.bind_eq_some_iff] at hRead
    obtain ⟨ms, -, group, -, hSome⟩ := hRead
    cases hSome
    exact ⟨fieldFits_strings group, trivial⟩
  · simp only [Option.bind_eq_bind, Option.bind_eq_some_iff] at hRead
    obtain ⟨ms, hRecord, name, -, value, hValue, hSome⟩ := hRead
    cases hSome
    refine ⟨fieldFits_string name, fieldFits_some ?_, trivial⟩
    -- a value that is missing is written as `null`
    rw [Members.withDefault] at hValue
    split at hValue
    · cases hValue
      exact .null
    · next d hFind => exact (Members.fits_of_find? hFind (hMembers hRecord)).of_toJson? hValue
  · simp only [Option.bind_eq_bind, Option.bind_eq_some_iff] at hRead
    obtain ⟨ms, -, url, -, hSome⟩ := hRead
    cases hSome
    exact ⟨fieldFits_string url, trivial⟩
  · cases hRead

/-- Of an action nothing is written any deeper than it was read, whatever its kind. -/
theorem confined (access : Access) (d : Document) : ConfinedAt (ofDocument? access) toJson d := by
  intro a hRead P depth h
  obtain ⟨⟨tag, rest⟩, hTagged, hRest⟩ := Option.bind_eq_some_iff.mp hRead
  obtain ⟨inner, rfl, hUntagged⟩ := fits_of_tagged? hTagged h
  -- the tag is written among the fields
  rw [toDocument_toJson]
  exact fits_written ⟨fieldFits_string _, fits_slots hRest hUntagged⟩

end Action

theorem Gate.confined (d : Document) : ConfinedAt ofDocument? toJson d := by
  intro g hRead P depth h
  simp only [ofDocument?, Option.bind_eq_bind, Option.bind_eq_some_iff] at hRead
  obtain ⟨ms, hRecord, -⟩ := hRead
  rw [toDocument_toJson]
  exact fits_record hRecord h fun inner _ =>
    ⟨fieldFits_string g.group, fieldFits_strings g.selected, trivial⟩

theorem ShowRule.confined (d : Document) : ConfinedAt ofDocument? toJson d := by
  intro r hRead P depth h
  simp only [ofDocument?, Option.bind_eq_bind, Option.bind_eq_some_iff] at hRead
  obtain ⟨ms, hRecord, showIf, hShowIf, hSome⟩ := hRead
  cases hSome
  rw [toDocument_toJson]
  exact fits_record hRecord h fun inner hMembers =>
    ⟨Members.optional_fits hShowIf (fun d _ => Condition.confined d) hMembers, trivial⟩

namespace Element

/-- The fields of an element fit where those of its record did, if its children do. -/
theorem fits_slots {access : Access} {ms : Members} {a : Attributes} {cs : List Element}
    (hRead : attributesOf? access ms = some a) (h : ∀ m ∈ ms, m.2.Fits P depth)
    (hChildren : FieldFits P depth (if !cs.isEmpty then some (.array (cs.map toJson)) else none)) :
    FieldsFit P depth (node a cs).slots := by
  obtain ⟨-, -, hStyle, hProps, hPosition, hAction, hActions, hGate, hShowRule, hEntrance,
    hTextAnimation, hInteractive⟩ := fields_of_attributesOf? hRead
  exact ⟨fieldFits_string a.id, fieldFits_string a.kind.name, Members.table_fits hStyle h,
    Members.table_fits hProps h, hChildren, Members.value_fits hPosition h,
    Members.optional_fits hAction (fun d _ => Action.confined access d) h,
    Members.optional_fits hActions
      (fun d _ => confinedAt_list? fun item _ => Action.confined access item) h,
    Members.optional_fits hGate (fun d _ => Gate.confined d) h,
    Members.optional_fits hShowRule (fun d _ => ShowRule.confined d) h,
    Members.value_fits hEntrance h, Members.value_fits hTextAnimation h,
    Members.value_fits hInteractive h, trivial⟩

/-- Of an element nothing is written any deeper than it was read, its children included. -/
theorem confined (access : Access) (d : Document) : ConfinedAt (ofDocument? access) toJson d := by
  intro e hRead P depth h
  rw [ofDocument?_eq] at hRead
  obtain ⟨ms, hRecord, hRead⟩ := Option.bind_eq_some_iff.mp hRead
  obtain ⟨a, hAttributes, hRead⟩ := Option.bind_eq_some_iff.mp hRead
  obtain ⟨cs, hChildren, rfl⟩ := Option.map_eq_some_iff.mp hRead
  rw [toDocument_toJson]
  refine fits_record hRecord h fun inner hMembers => fits_slots hAttributes hMembers ?_
  -- by recursion on the document: children are smaller than the element
  exact Members.list_fits hChildren (fun part hPart item hItem =>
    have hLess := Nat.lt_trans hItem (Members.sizeOf_lt_of_find? hRecord hPart)
    confined access item) hMembers
termination_by sizeOf d

end Element

/-! ## Screens and flows -/

namespace Screen

/-- The fields of a content fit where the members of its screen do. -/
theorem fits_contentSlots {ms : Members} {content : Content} (hRead : content? ms = some content)
    (h : ∀ m ∈ ms, m.2.Fits P depth) : FieldsFit P depth (contentSlots content) := by
  rw [content?, Option.ite_none_right_eq_some, Document.firstOf_eq_some_iff] at hRead
  obtain ⟨-, hElements | ⟨-, hCustom⟩⟩ := hRead
  · rw [elementsContent?, Option.ite_none_left_eq_some] at hElements
    obtain ⟨roots, hRoots, rfl⟩ := Option.map_eq_some_iff.mp hElements.2
    exact ⟨Members.required_fits hRoots
      (fun d _ => confinedAt_list? fun item _ => Element.confined .tried item) h, trivial⟩
  · rw [customContent?, Option.ite_none_left_eq_some] at hCustom
    obtain ⟨component, -, hCustom⟩ := Option.bind_eq_some_iff.mp hCustom.2
    obtain ⟨props, hProps, rfl⟩ := Option.map_eq_some_iff.mp hCustom
    exact ⟨fieldFits_string component, Members.table_fits hProps h, trivial⟩

theorem confined (d : Document) : ConfinedAt ofDocument? toJson d := by
  intro s hRead P depth h
  cases d with
  | object ms =>
    obtain ⟨inner, rfl, hMembers⟩ := h.members
    rw [ofDocument?, Option.ite_none_left_eq_some] at hRead
    simp only [Option.bind_eq_bind, Option.bind_eq_some_iff] at hRead
    obtain ⟨-, id, -, name, -, hidden, -, content, hContent, hSome⟩ := hRead
    cases hSome
    -- the content is made of some of the members
    have hContent := fits_contentSlots hContent
      fun m hm => hMembers m (List.mem_of_mem_filter hm)
    rw [toDocument_toJson]
    refine fits_written ⟨fieldFits_string id, fieldFits_strings name, ?_, hContent⟩
    cases hidden with
    | true => exact fieldFits_some .bool
    | false => exact fieldFits_none
  | _ => cases hRead

end Screen

theorem Experiment.confined (d : Document) : ConfinedAt ofDocument? toJson d := by
  intro e hRead P depth h
  simp only [ofDocument?, Option.bind_eq_bind, Option.bind_eq_some_iff] at hRead
  obtain ⟨ms, hRecord, -⟩ := hRead
  rw [toDocument_toJson]
  exact fits_record hRecord h fun inner _ =>
    ⟨fieldFits_string e.id, fieldFits_strings e.name, trivial⟩

/-- What is written of a flow nests no deeper than what was read of it and has no other numbers. -/
theorem Flow.confined (d : Document) : ConfinedAt ofDocument? toJson d := by
  intro f hRead P depth h
  simp only [ofDocument?, Option.bind_eq_bind, Option.bind_eq_some_iff] at hRead
  obtain ⟨ms, hRecord, screens, hScreens, experiments, hExperiments, hSome⟩ := hRead
  cases hSome
  rw [toDocument_toJson]
  have hList (part : Document) : ConfinedAt (Document.list? Screen.ofDocument?)
      (fun screens => .array (screens.map Screen.toJson)) part :=
    confinedAt_list? fun item _ => Screen.confined item
  refine fits_record hRecord h fun inner hMembers => ⟨?_, ?_, trivial⟩
  · have hFits := Members.required_fits hScreens (fun part _ => hList part) hMembers
    exact hFits
  · exact Members.list_fits hExperiments (fun d _ item _ => Experiment.confined item) hMembers

end Onboarding
