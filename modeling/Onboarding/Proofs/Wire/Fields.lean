import Mathlib.Data.List.Nodup
import Onboarding.Json.Record

/-!
# Onboarding — records that are read, written and read again

What is read of a document may be written and read again. A record is written as
an object of those of its fields that have a value (`Json.present`), so that no
name is repeated and every field is looked up by itself. A field is read again as
it was read if its value is (`KeptAt`), and so is the record.

Reading a value may look at parts of the document only, which is why a value is
said to be kept at a document: in a proof by recursion on the document it is kept
at all smaller ones.

## Results

* `Members.find?_written` — a field of a written record is found if it has a value.
* `Members.required_kept`, `Members.optional_kept`, `Members.withDefault_kept` —
  a field is kept if its value is.
* `keptAt_list?`, `keptAt_table?`, `keptAt_toJson?` — lists, tables and values.
-/

namespace Onboarding

variable {α : Type}

/-- What one reader makes of a document, another one reads again from what is written of it. -/
def KeptAt (read reread : Document → Option α) (write : α → Json) (d : Document) : Prop :=
  ∀ x, read d = some x → reread (write x).toDocument = some x

/-! ## Written values as documents -/

mutual

/-- Nothing that is written is unreadable. -/
theorem Json.isReadable_toDocument : ∀ v : Json, v.toDocument.isReadable = true
  | .null => rfl
  | .bool _ => rfl
  | .number _ => rfl
  | .string _ => rfl
  | .array xs => by
    rw [Json.toDocument, Document.isReadable, Json.areReadable_toDocuments xs]
  | .object ms => by
    rw [Json.toDocument, Document.isReadable, Json.membersReadable_toDocumentMembers ms]

/-- Values are readable as documents, items included. -/
theorem Json.areReadable_toDocuments : ∀ xs : List Json,
    Document.areReadable (Json.toDocuments xs) = true
  | [] => rfl
  | x :: xs => by
    rw [Json.toDocuments, Document.areReadable, Json.isReadable_toDocument x,
      Json.areReadable_toDocuments xs, Bool.true_and]

theorem Json.membersReadable_toDocumentMembers : ∀ ms : List (String × Json),
    Document.membersReadable (Json.toDocumentMembers ms) = true
  | [] => rfl
  | (_, x) :: ms => by
    rw [Json.toDocumentMembers, Document.membersReadable, Json.isReadable_toDocument x,
      Json.membersReadable_toDocumentMembers ms, Bool.true_and]

end

/-- Members become documents one by one, each under its key. -/
theorem Json.toDocumentMembers_eq (ms : List (String × Json)) :
    Json.toDocumentMembers ms = ms.map fun m => (m.1, m.2.toDocument) := by
  induction ms with
  | nil => rfl
  | cons m ms ih => rw [Json.toDocumentMembers, ih, List.map_cons]

/-! ## Written records -/

namespace Json

/-- The members of the fields that have a value. -/
def present (fields : List (String × Option Json)) : List (String × Json) :=
  fields.filterMap fun f => f.2.map fun v => (f.1, v)

theorem present_nil : present [] = [] := by
  unfold present
  rfl

/-- A field without a value leaves no member. -/
theorem present_cons (name : String) (v : Option Json) (fields : List (String × Option Json)) :
    present ((name, v) :: fields) = optionalMember name v ++ present fields := by
  cases v <;> rfl

/-- A member under a condition is an optional one. -/
theorem memberIf_eq (condition : Bool) (name : String) (v : Json) :
    memberIf condition name v = optionalMember name (if condition then some v else none) := by
  cases condition <;> rfl

/-- The names of a written record are names of its fields, in their order. -/
theorem names_present (fields : List (String × Option Json)) :
    ((present fields).map Prod.fst).Sublist (fields.map Prod.fst) := by
  induction fields with
  | nil => exact List.Sublist.slnil
  | cons f fields ih =>
    obtain ⟨name, v⟩ := f
    cases v with
    | none => exact ih.cons name
    | some v => exact ih.cons_cons name

end Json

namespace Members

/-- A written record as members to read. -/
def written (fields : List (String × Option Json)) : Members :=
  Json.toDocumentMembers (Json.present fields)

/-- A record is written with the members of its fields that have a value. -/
theorem toDocument_present (fields : List (String × Option Json)) :
    (Json.object (Json.present fields)).toDocument = .object (written fields) := by
  rw [Json.toDocument, written]

/-- Written members are chosen by name before they are written or afterwards. -/
theorem filter_written (p : String → Bool) (fields : List (String × Option Json)) :
    (written fields).filter (fun m => p m.1) = written (fields.filter fun f => p f.1) := by
  induction fields with
  | nil => rfl
  | cons f fields ih =>
    obtain ⟨name, v⟩ := f
    -- an absent field is not written, on either side of the filter
    cases v with
    | none =>
      rw [List.filter_cons]
      split
      · exact ih
      · exact ih
    | some v =>
      rw [List.filter_cons]
      show ((name, v.toDocument) :: written fields).filter _ = _
      rw [List.filter_cons]
      split
      · rw [ih]
        rfl
      · exact ih

/-- Where no name stands twice, none of any names does. -/
theorem repeatsAny_eq_false {ms : Members} (h : (ms.map Prod.fst).Nodup) (names : List String) :
    ms.repeatsAny names = false := by
  rw [repeatsAny, List.any_eq_false]
  intro name _
  have hCount : (ms.filter fun m => m.1 = name).length = (ms.map Prod.fst).count name := by
    rw [List.count, List.countP_map, List.countP_eq_length_filter]
    rfl
  have hOnce := List.nodup_iff_count_le_one.mp h name
  simp only [decide_eq_true_eq]
  omega

/-- A name that no member has is not found. -/
theorem find?_eq_none {ms : Members} {name : String} (h : name ∉ ms.map Prod.fst) :
    ms.find? name = none := by
  induction ms with
  | nil => rfl
  | cons m ms ih =>
    obtain ⟨k, d⟩ := m
    rw [List.map_cons, List.mem_cons, not_or] at h
    rw [find?, Entries.get?, if_neg h.1]
    exact ih h.2

variable {fields : List (String × Option Json)}

/-- A field of a written record is found if it has a value. -/
theorem find?_written (h : (fields.map Prod.fst).Nodup) (name : String) :
    (written fields).find? name =
      ((Entries.get? name fields).getD none).map Json.toDocument := by
  induction fields with
  | nil => rfl
  | cons f fields ih =>
    obtain ⟨key, v⟩ := f
    rw [List.map_cons, List.nodup_cons] at h
    rw [Entries.get?]
    by_cases hName : name = key
    · rw [if_pos hName]
      cases v with
      | none =>
        -- the name does not stand further behind
        refine find?_eq_none ?_
        rw [written, Json.toDocumentMembers_eq, List.map_map, hName]
        exact fun hMem => h.1 ((Json.names_present fields).subset hMem)
      | some v => exact if_pos hName
    · rw [if_neg hName, ← ih h.2]
      cases v with
      | none => rfl
      | some v => exact if_neg hName

/-- A written record has no name twice if its fields have none. -/
theorem nodup_written (h : (fields.map Prod.fst).Nodup) :
    ((written fields).map Prod.fst).Nodup := by
  rw [written, Json.toDocumentMembers_eq, List.map_map]
  exact (Json.names_present fields).nodup h

/-- A written record is readable. -/
theorem isReadable_written (fields : List (String × Option Json)) :
    (Document.object (written fields)).isReadable = true :=
  Json.membersReadable_toDocumentMembers (Json.present fields)

/-- A written record is a record of any names. -/
theorem record?_written (h : (fields.map Prod.fst).Nodup) (names : List String) :
    (Document.object (written fields)).record? names = some (written fields) := by
  rw [Document.record?, repeatsAny_eq_false (nodup_written h)]
  rfl

/-- A written tagged record has its tag and is the record of its other fields. -/
theorem tagged?_written {tag alternative : String}
    (h : (((tag, some (.string alternative)) :: fields).map Prod.fst).Nodup) (access : Access)
    (alternatives : List String) :
    (Document.object (written ((tag, some (.string alternative)) :: fields))).tagged? access tag
      alternatives = some (alternative, .object (written fields)) := by
  -- the names are distinct, so the tag is cut out and the other fields are left as they are
  have hOthers : ∀ f ∈ fields, f.1 ≠ tag := by
    intro f hMem hName
    exact (List.nodup_cons.mp h).1 (List.mem_map.mpr ⟨f, hMem, hName⟩)
  have hTag : (written ((tag, some (.string alternative)) :: fields)).filter
      (fun m => m.1 = tag) = [(tag, .string alternative)] := by
    rw [filter_written (fun name => name = tag), List.filter_cons_of_pos (by simp),
      List.filter_eq_nil_iff.mpr (by simpa using hOthers)]
    rfl
  have hRest : (written ((tag, some (.string alternative)) :: fields)).filter
      (fun m => m.1 ≠ tag) = written fields := by
    rw [filter_written (fun name => name ≠ tag), List.filter_cons_of_neg (by simp),
      List.filter_eq_self.mpr (by simpa using hOthers)]
  unfold Document.tagged? Document.cutTag?
  rw [isReadable_written]
  simp only [hTag, hRest]
  rfl

/-! ## Fields -/

/-- What is found is the value of some member. -/
theorem exists_mem_of_find? {ms : Members} {name : String} {part : Document}
    (h : ms.find? name = some part) : ∃ key, (key, part) ∈ ms := by
  induction ms with
  | nil => cases h
  | cons m ms ih =>
    obtain ⟨key, other⟩ := m
    rw [find?, Entries.get?] at h
    split at h
    · cases h
      exact ⟨key, List.mem_cons_self⟩
    · obtain ⟨key, hKey⟩ := ih h
      exact ⟨key, List.mem_cons_of_mem _ hKey⟩

/-- A field of a record is smaller than the record. -/
theorem sizeOf_lt_of_find? {d part : Document} {names : List String} {ms : Members} {name : String}
    (hRecord : d.record? names = some ms) (hFind : ms.find? name = some part) :
    sizeOf part < sizeOf d := by
  obtain ⟨key, hPart⟩ := exists_mem_of_find? hFind
  cases d with
  | object members =>
    simp only [Document.record?, Option.ite_none_left_eq_some, Option.some.injEq] at hRecord
    obtain ⟨-, rfl⟩ := hRecord
    have hLess := List.sizeOf_lt_of_mem hPart
    simp only [Prod.mk.sizeOf_spec] at hLess
    rw [Document.object.sizeOf_spec]
    omega
  | array items =>
    simp only [Document.record?, Option.ite_none_right_eq_some, Option.some.injEq] at hRecord
    obtain ⟨-, rfl⟩ := hRecord
    -- an array's field is one of its items, under the name of its place
    have hLess := List.sizeOf_lt_of_mem (List.of_mem_zip hPart).2
    rw [Document.array.sizeOf_spec]
    omega
  | _ => cases hRecord

/-- An optional field has a value if its member is there, is not `null` and can be read. -/
theorem optional_eq_some_some {ms : Members} {name : String} {read : Document → Option α} {x : α} :
    ms.optional name read = some (some x) ↔
      ∃ d, ms.find? name = some d ∧ d.isNull = false ∧ read d = some x := by
  rw [optional]
  cases hFind : ms.find? name with
  | none => simp
  | some d => cases d <;> simp [Document.isNull]

/-- An optional field that is missing is read as nothing. -/
theorem optional_eq_none {ms : Members} {name : String} {read : Document → Option α}
    (h : ms.find? name = none) : ms.optional name read = some none := by
  rw [optional, h]

variable {ms ms' : Members} {name : String} {read reread : Document → Option α} {write : α → Json}

/-- A field that must be there is kept if its value is. -/
theorem required_kept {x : α} (hRead : ms.required name read = some x)
    (hKept : ∀ d, ms.find? name = some d → KeptAt read reread write d)
    (hFind : ms'.find? name = some (write x).toDocument) : ms'.required name reread = some x := by
  obtain ⟨d, hPart, hValue⟩ := Option.bind_eq_some_iff.mp hRead
  rw [required, hFind]
  exact hKept d hPart x hValue

/-- A field that may be missing is kept if its value is. -/
theorem optional_kept {x : Option α} (hRead : ms.optional name read = some x)
    (hKept : ∀ d, ms.find? name = some d → KeptAt read reread write d)
    (hNull : reread .null = none) (hFind : ms'.find? name = (x.map write).map Json.toDocument) :
    ms'.optional name reread = some x := by
  cases x with
  | none => exact optional_eq_none hFind
  | some x =>
    obtain ⟨d, hPart, -, hValue⟩ := optional_eq_some_some.mp hRead
    have hAgain := hKept d hPart x hValue
    refine optional_eq_some_some.mpr ⟨_, hFind, ?_, hAgain⟩
    rw [Bool.eq_false_iff]
    intro hIsNull
    -- a written `null` would not be read
    cases hWritten : (write x).toDocument with
    | null => rw [hWritten, hNull] at hAgain; cases hAgain
    | _ => rw [hWritten] at hIsNull; cases hIsNull

/-- A field with a default that is always written is kept if its value and the default are. -/
theorem withDefault_kept {x default : α} (hRead : ms.withDefault name default read = some x)
    (hKept : ∀ d, ms.find? name = some d → KeptAt read reread write d)
    (hDefault : reread (write default).toDocument = some default)
    (hFind : ms'.find? name = some (write x).toDocument) :
    ms'.withDefault name default reread = some x := by
  rw [withDefault, hFind]
  rw [withDefault] at hRead
  split at hRead
  · cases hRead
    exact hDefault
  · next d hPart => exact hKept d hPart x hRead

/-- The same field may be left out where it is the default. -/
theorem withDefault_kept_or_skip {x default : α} (skip : Bool)
    (hRead : ms.withDefault name default read = some x)
    (hKept : ∀ d, ms.find? name = some d → KeptAt read reread write d)
    (hDefault : reread (write default).toDocument = some default)
    (hSkip : skip = true → x = default)
    (hFind : ms'.find? name = (if !skip then some (write x) else none).map Json.toDocument) :
    ms'.withDefault name default reread = some x := by
  cases skip with
  | true => rw [withDefault, hFind, hSkip rfl]; rfl
  | false => exact withDefault_kept hRead hKept hDefault hFind

/-- A mark that is written only if it is set is kept. -/
theorem flag_kept {b : Bool}
    (hFind : ms'.find? name = (if b then some (.bool true) else none).map Json.toDocument) :
    ms'.withDefault name false Document.toBool? = some b := by
  rw [withDefault]
  cases b with
  | true => rw [hFind]; rfl
  | false => rw [hFind]; rfl

end Members

/-- Of two alternatives the first that fits is taken. -/
theorem Document.firstOf_eq_some_iff {a : Option α} {b : Unit → Option α} {x : α} :
    firstOf a b = some x ↔ a = some x ∨ a = none ∧ b () = some x := by
  cases a <;> simp [firstOf]

/-! ## Values, lists and tables -/

/-- A string is written as it is read. -/
theorem keptAt_toString? (d : Document) :
    KeptAt Document.toString? Document.toString? .string d := by
  intro s _
  rfl

/-- A value is written as it is read. -/
theorem keptAt_toJson? (d : Document) : KeptAt Document.toJson? Document.toJson? id d := by
  intro v hRead
  exact Json.toJson?_toDocument (Document.canonical_of_toJson? hRead)

/-- Only a `null` says `null`. -/
theorem isNull_toDocument_of_toJson? {d : Document} {v : Json} (h : d.toJson? = some v) :
    v.toDocument.isNull = d.isNull := by
  cases d with
  | array xs =>
    obtain ⟨vs, -, rfl⟩ := Option.map_eq_some_iff.mp h
    rfl
  | object ms =>
    obtain ⟨vs, -, rfl⟩ := Option.map_eq_some_iff.mp h
    rfl
  | unreadable => cases h
  | _ => cases h; rfl

/-- A value that may be missing is kept. -/
theorem Members.optional_toJson?_kept {ms ms' : Members} {name : String} {v : Option Json}
    (hRead : ms.optional name Document.toJson? = some v)
    (hFind : ms'.find? name = v.map Json.toDocument) :
    ms'.optional name Document.toJson? = some v := by
  cases v with
  | none => exact optional_eq_none hFind
  | some v =>
    obtain ⟨d, hPart, hNull, hValue⟩ := optional_eq_some_some.mp hRead
    refine optional_eq_some_some.mpr ⟨_, hFind, ?_, keptAt_toJson? d v hValue⟩
    rw [isNull_toDocument_of_toJson? hValue, hNull]

theorem readAll_kept {read reread : Document → Option α} {write : α → Json} {items : List Document}
    {xs : List α} (hRead : Document.readAll read items = some xs)
    (h : ∀ item ∈ items, KeptAt read reread write item) :
    Document.readAll reread (Json.toDocuments (xs.map write)) = some xs := by
  induction items generalizing xs with
  | nil =>
    cases hRead
    rfl
  | cons item items ih =>
    rw [Document.readAll] at hRead
    obtain ⟨x, hItem, hRead⟩ := Option.bind_eq_some_iff.mp hRead
    obtain ⟨rest, hRest, rfl⟩ := Option.map_eq_some_iff.mp hRead
    have hOthers := ih hRest fun other hMem => h other (List.mem_cons_of_mem _ hMem)
    have hFirst := h item List.mem_cons_self x hItem
    rw [List.map_cons, Json.toDocuments, Document.readAll, hFirst, Option.bind_some, hOthers]
    rfl

/-- A list is kept if its items are, all of which are smaller. -/
theorem keptAt_list? {read reread : Document → Option α} {write : α → Json} {d : Document}
    (h : ∀ item, sizeOf item < sizeOf d → KeptAt read reread write item) :
    KeptAt (Document.list? read) (Document.list? reread) (fun xs => .array (xs.map write)) d := by
  intro xs hRead
  cases d with
  | array items =>
    rw [Json.toDocument, Document.list?]
    refine readAll_kept hRead fun item hMem => h item ?_
    have hLess := List.sizeOf_lt_of_mem hMem
    rw [Document.array.sizeOf_spec]
    omega
  | _ => cases hRead

theorem keptAt_table? (d : Document) : KeptAt Document.table? Document.table? Json.ofTable d := by
  intro t hRead
  cases d with
  | object ms =>
    obtain ⟨vs, hValues, rfl⟩ := Option.map_eq_some_iff.mp hRead
    have hCanonical : Json.CanonicalMembers (Table.ofList vs).entries :=
      Json.canonicalMembers_insertAll (by simp [Json.CanonicalMembers])
        (Document.canonicalMembers_of_toMembers? hValues)
    generalize Table.ofList vs = t at hCanonical
    rw [Json.ofTable, Json.toDocument, Document.table?,
      Json.toMembers?_toDocumentMembers hCanonical]
    -- the entries of a table are in their order already
    obtain ⟨entries, hAscending⟩ := t
    simp only [Option.map_some, Table.ofList, Entries.ofList_eq_self hAscending]
  | _ => cases hRead

/-- A table that is left out where it is empty is kept. -/
theorem Members.table_kept {ms ms' : Members} {name : String} {t : Table Json}
    (hRead : ms.withDefault name ∅ Document.table? = some t)
    (hFind : ms'.find? name =
      (if !t.isEmpty then some (Json.ofTable t) else none).map Json.toDocument) :
    ms'.withDefault name ∅ Document.table? = some t := by
  refine withDefault_kept_or_skip t.isEmpty hRead (fun d _ => keptAt_table? d) rfl ?_ hFind
  intro hEmpty
  obtain ⟨entries, hAscending⟩ := t
  cases List.isEmpty_iff.mp hEmpty
  rfl

end Onboarding
