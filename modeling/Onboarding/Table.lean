/-!
# Onboarding — tables keyed by text

A `Table` maps texts to values and keeps its entries in ascending order of the
keys, each key once. Texts are ordered by code points, which is also the order
of their UTF-8 bytes. A `NameSet` is a table that holds no values.

## Results

* `Table.get?_insert` — a write is seen under its own key and nowhere else.
* `Table.get?_extend` — what is written over a table wins.
* `Table.get?_erase` — an erased key is gone, every other key stays.
* `Table.get?_map` — a changed value stays under its key.
* `Table.get?_filter` — a value that fits stays, every other one is gone.
* `Table.mem_keys` — the keys are those that have a value.
* `Table.ext_get?` — a table is determined by what it answers to `get?`.
* `NameSet.contains_add`, `NameSet.contains_erase` — the names of a changed set.
-/

namespace Onboarding

variable {α β : Type}

/-- Keys strictly increase from entry to entry. -/
def Ascending (entries : List (String × α)) : Prop :=
  entries.Pairwise (fun a b => a.1 < b.1)

/-! ## Entries -/

namespace Entries

/-- Write `value` under `key`, in place of an earlier value. -/
def insert (key : String) (value : α) : List (String × α) → List (String × α)
  | [] => [(key, value)]
  | (k, v) :: rest =>
    if key < k then (key, value) :: (k, v) :: rest
    else if key = k then (key, value) :: rest
    else (k, v) :: insert key value rest

/-- The value under `key`. -/
def get? (key : String) : List (String × α) → Option α
  | [] => none
  | (k, v) :: rest => if key = k then some v else get? key rest

/-- Write every entry of `more` in turn. -/
def insertAll (entries more : List (String × α)) : List (String × α) :=
  more.foldl (fun acc e => insert e.1 e.2 acc) entries

/-- The entries with ascending keys; of two values under one key the later one counts. -/
def ofList (entries : List (String × α)) : List (String × α) :=
  insertAll [] entries

theorem mem_insert {key : String} {value : α} {e : String × α} {entries : List (String × α)}
    (h : e ∈ insert key value entries) : e = (key, value) ∨ e ∈ entries := by
  induction entries with
  | nil => simpa [insert] using h
  | cons x rest ih =>
    obtain ⟨k, v⟩ := x
    rw [insert] at h
    split at h
    · simpa using h
    · split at h
      · rcases List.mem_cons.mp h with h | h
        · exact .inl h
        · exact .inr (List.mem_cons_of_mem _ h)
      · rcases List.mem_cons.mp h with h | h
        · exact .inr (h ▸ List.mem_cons_self)
        · exact (ih h).imp id (List.mem_cons_of_mem _)

theorem mem_insertAll {e : String × α} {entries more : List (String × α)}
    (h : e ∈ insertAll entries more) : e ∈ entries ∨ e ∈ more := by
  induction more generalizing entries with
  | nil => exact .inl h
  | cons x rest ih =>
    rcases ih h with h | h
    · rcases mem_insert h with rfl | h
      · exact .inr List.mem_cons_self
      · exact .inl h
    · exact .inr (List.mem_cons_of_mem _ h)

/-- A table has no entries but those it was made of. -/
theorem mem_of_mem_ofList {e : String × α} {entries : List (String × α)}
    (h : e ∈ ofList entries) : e ∈ entries :=
  (mem_insertAll h).resolve_left (by simp)

theorem ascending_insert {entries : List (String × α)} (h : Ascending entries)
    (key : String) (value : α) : Ascending (insert key value entries) := by
  induction entries with
  | nil => simp [insert, Ascending]
  | cons x rest ih =>
    obtain ⟨k, v⟩ := x
    have hRest := (List.pairwise_cons.mp h).2
    have hHead := (List.pairwise_cons.mp h).1
    rw [insert]
    split
    · rename_i hlt
      refine List.pairwise_cons.mpr ⟨?_, h⟩
      intro e he
      rcases List.mem_cons.mp he with rfl | he
      · exact hlt
      · exact String.lt_trans hlt (hHead e he)
    · split
      · rename_i heq
        subst heq
        exact List.pairwise_cons.mpr ⟨hHead, hRest⟩
      · rename_i hnlt hne
        refine List.pairwise_cons.mpr ⟨?_, ih hRest⟩
        intro e he
        rcases mem_insert he with rfl | he
        · exact String.not_le.mp fun hle =>
            hne (String.le_antisymm hle (String.not_lt.mp hnlt))
        · exact hHead e he

theorem ascending_insertAll {entries : List (String × α)} (h : Ascending entries)
    (more : List (String × α)) : Ascending (insertAll entries more) := by
  induction more generalizing entries with
  | nil => exact h
  | cons e rest ih => exact ih (ascending_insert h e.1 e.2)

theorem ascending_ofList (entries : List (String × α)) : Ascending (ofList entries) :=
  ascending_insertAll List.Pairwise.nil entries

theorem get?_insert (key k : String) (value : α) (entries : List (String × α)) :
    get? k (insert key value entries) = if k = key then some value else get? k entries := by
  induction entries with
  | nil => simp [insert, get?]
  | cons x rest ih =>
    obtain ⟨k', v⟩ := x
    rw [insert]
    split
    · simp [get?]
    · split
      · rename_i heq
        subst heq
        simp only [get?]
        split <;> rfl
      · rename_i hne
        simp only [get?, ih]
        by_cases hk : k = k'
        · have : k ≠ key := fun h => hne (h.symm.trans hk)
          simp [hk, Ne.symm hne]
        · simp [hk]

end Entries

/-! ## Tables -/

/-- A map from texts to values with its entries in ascending key order. -/
structure Table (α : Type) where
  entries : List (String × α)
  ascending : Ascending entries

namespace Table

instance [DecidableEq α] : DecidableEq (Table α) := fun s t =>
  if h : s.entries = t.entries then
    isTrue (by cases s; cases t; simp_all)
  else
    isFalse (fun heq => h (heq ▸ rfl))

/-- The table without entries. -/
def empty : Table α := ⟨[], List.Pairwise.nil⟩

instance : EmptyCollection (Table α) := ⟨empty⟩

instance : Inhabited (Table α) := ⟨empty⟩

/-- The value under `key`. -/
def get? (t : Table α) (key : String) : Option α := Entries.get? key t.entries

/-- Whether `key` has a value. -/
def contains (t : Table α) (key : String) : Bool := (t.get? key).isSome

/-- Write `value` under `key`. -/
def insert (t : Table α) (key : String) (value : α) : Table α :=
  ⟨Entries.insert key value t.entries, Entries.ascending_insert t.ascending key value⟩

/-- Drop the value under `key`. -/
def erase (t : Table α) (key : String) : Table α :=
  ⟨t.entries.filter (fun e => e.1 ≠ key), t.ascending.filter _⟩

/-- Write all entries in turn, so that of two values under one key the later one counts. -/
def ofList (entries : List (String × α)) : Table α :=
  ⟨Entries.ofList entries, Entries.ascending_ofList entries⟩

/-- `t` with every entry of `more` written over it. -/
def extend (t more : Table α) : Table α :=
  ⟨Entries.insertAll t.entries more.entries, Entries.ascending_insertAll t.ascending more.entries⟩

/-- The keys in ascending order. -/
def keys (t : Table α) : List String := t.entries.map Prod.fst

/-- The values in the order of their keys. -/
def values (t : Table α) : List α := t.entries.map Prod.snd

/-- The number of entries. -/
def size (t : Table α) : Nat := t.entries.length

/-- Whether there are no entries. -/
def isEmpty (t : Table α) : Bool := t.entries.isEmpty

/-- Change every value and keep the keys. -/
def map (t : Table α) (f : α → β) : Table β :=
  ⟨t.entries.map (fun e => (e.1, f e.2)),
    by simpa [Ascending, List.pairwise_map] using t.ascending⟩

/-- Keep the entries whose values fit. -/
def filter (t : Table α) (p : α → Bool) : Table α :=
  ⟨t.entries.filter (fun e => p e.2), t.ascending.filter _⟩

theorem get?_insert (t : Table α) (key k : String) (value : α) :
    (t.insert key value).get? k = if k = key then some value else t.get? k :=
  Entries.get?_insert key k value t.entries

theorem contains_insert (t : Table α) (key k : String) (value : α) :
    (t.insert key value).contains k = (decide (k = key) || t.contains k) := by
  rw [contains, get?_insert]
  by_cases h : k = key <;> simp [h, contains]

theorem get?_erase (t : Table α) (key k : String) :
    (t.erase key).get? k = if k = key then none else t.get? k := by
  obtain ⟨entries, h⟩ := t
  simp only [get?, erase]
  clear h
  induction entries with
  | nil => simp [Entries.get?]
  | cons x rest ih =>
    obtain ⟨k', v⟩ := x
    by_cases hk : k' = key
    · subst hk
      simp only [ne_eq, not_true_eq_false, decide_false, Bool.false_eq_true, not_false_eq_true,
        List.filter_cons_of_neg, ih, Entries.get?]
      by_cases hkk : k = k' <;> simp [hkk]
    · by_cases hkk : k = k'
      · subst hkk
        simp [Entries.get?, hk]
      · simp only [ne_eq, hk, not_false_eq_true, decide_true, List.filter_cons_of_pos,
          Entries.get?, hkk, if_false, ih]

theorem get?_map (t : Table α) (f : α → β) (key : String) :
    (t.map f).get? key = (t.get? key).map f := by
  obtain ⟨entries, h⟩ := t
  simp only [get?, map]
  clear h
  induction entries with
  | nil => rfl
  | cons e rest ih =>
    rw [List.map_cons, Entries.get?, Entries.get?, ih]
    split <;> rfl

theorem values_map (t : Table α) (f : α → β) : (t.map f).values = t.values.map f := by
  simp [values, map]

/-- A change that is the same at every value is the same at the table. -/
theorem map_congr {t : Table α} {f g : α → β} (h : ∀ v ∈ t.values, f v = g v) :
    t.map f = t.map g := by
  simp only [map, mk.injEq]
  refine List.map_congr_left fun e he => ?_
  rw [h e.2 (List.mem_map_of_mem he)]

/-- The keys are those that have a value. -/
theorem mem_keys {t : Table α} {key : String} : key ∈ t.keys ↔ t.contains key = true := by
  obtain ⟨entries, h⟩ := t
  simp only [keys, contains, get?]
  clear h
  induction entries with
  | nil => simp [Entries.get?]
  | cons e rest ih =>
    obtain ⟨k, v⟩ := e
    rw [List.map_cons, List.mem_cons, ih, Entries.get?]
    by_cases hKey : key = k <;> simp [hKey]

private theorem get?_eq_none_of_lt {key : String} {entries : List (String × α)}
    (h : ∀ e ∈ entries, key < e.1) : Entries.get? key entries = none := by
  induction entries with
  | nil => rfl
  | cons x rest ih =>
    have hne : key ≠ x.1 := fun heq =>
      String.lt_irrefl key (by simpa [← heq] using h x List.mem_cons_self)
    rw [Entries.get?, if_neg hne]
    exact ih fun e he => h e (List.mem_cons_of_mem _ he)

private theorem entries_eq_of_get? {s t : List (String × α)} (hs : Ascending s) (ht : Ascending t)
    (h : ∀ k, Entries.get? k s = Entries.get? k t) : s = t := by
  induction s generalizing t with
  | nil =>
    cases t with
    | nil => rfl
    | cons y _ => simpa [Entries.get?] using h y.1
  | cons x s ih =>
    cases t with
    | nil => simpa [Entries.get?] using h x.1
    | cons y t =>
      obtain ⟨kx, vx⟩ := x
      obtain ⟨ky, vy⟩ := y
      have hsHead := (List.pairwise_cons.mp hs).1
      have htHead := (List.pairwise_cons.mp ht).1
      have hKey : kx = ky := by
        refine String.le_antisymm ?_ ?_
        · refine String.not_lt.mp fun hlt => ?_
          have hNone : Entries.get? ky ((kx, vx) :: s) = none := get?_eq_none_of_lt fun e he => by
            rcases List.mem_cons.mp he with rfl | he
            · exact hlt
            · exact String.lt_trans hlt (hsHead e he)
          have := h ky
          rw [hNone] at this
          simp [Entries.get?] at this
        · refine String.not_lt.mp fun hlt => ?_
          have hNone : Entries.get? kx ((ky, vy) :: t) = none := get?_eq_none_of_lt fun e he => by
            rcases List.mem_cons.mp he with rfl | he
            · exact hlt
            · exact String.lt_trans hlt (htHead e he)
          have := h kx
          rw [hNone] at this
          simp [Entries.get?] at this
      subst hKey
      have hVal : vx = vy := by simpa [Entries.get?] using h kx
      subst hVal
      refine congrArg _ (ih (List.pairwise_cons.mp hs).2 (List.pairwise_cons.mp ht).2 fun k => ?_)
      by_cases hk : k = kx
      · subst hk
        rw [get?_eq_none_of_lt hsHead, get?_eq_none_of_lt htHead]
      · simpa [Entries.get?, hk] using h k

/-- A table is determined by what it answers to `get?`. -/
theorem ext_get? {s t : Table α} (h : ∀ k, s.get? k = t.get? k) : s = t := by
  cases s
  cases t
  simp only [mk.injEq]
  exact entries_eq_of_get? (by assumption) (by assumption) h

private theorem get?_insertAll {more : List (String × α)} (h : Ascending more) (key : String)
    (entries : List (String × α)) : Entries.get? key (Entries.insertAll entries more) =
      (Entries.get? key more).or (Entries.get? key entries) := by
  induction more generalizing entries with
  | nil => simp [Entries.insertAll, Entries.get?]
  | cons e rest ih =>
    obtain ⟨k, v⟩ := e
    have hHead := (List.pairwise_cons.mp h).1
    show Entries.get? key (Entries.insertAll (Entries.insert k v entries) rest) = _
    rw [ih (List.pairwise_cons.mp h).2, Entries.get?_insert, Entries.get?]
    by_cases hk : key = k
    · subst hk
      simp [get?_eq_none_of_lt hHead]
    · simp [hk]

/-- What is written over a table wins. -/
theorem get?_extend (t more : Table α) (key : String) :
    (t.extend more).get? key = (more.get? key).or (t.get? key) :=
  get?_insertAll more.ascending key t.entries

theorem contains_extend (t more : Table α) (key : String) :
    (t.extend more).contains key = (more.contains key || t.contains key) := by
  rw [contains, get?_extend, Option.isSome_or]
  rfl

/-- A value that fits stays under its key. -/
theorem get?_filter (t : Table α) (p : α → Bool) (key : String) :
    (t.filter p).get? key = (t.get? key).filter p := by
  obtain ⟨entries, h⟩ := t
  simp only [get?, filter]
  induction entries with
  | nil => rfl
  | cons e rest ih =>
    obtain ⟨k, v⟩ := e
    obtain ⟨hHead, hRest⟩ := List.pairwise_cons.mp h
    rw [List.filter_cons, Entries.get?]
    by_cases hKey : key = k
    · subst hKey
      -- an entry that is dropped has no second one behind it under the same key
      have hNone : Entries.get? key rest = none := get?_eq_none_of_lt hHead
      cases hFits : p v with
      | true => simp [Entries.get?, Option.filter, hFits]
      | false => simp [ih hRest, hNone, Option.filter, hFits]
    · cases hFits : p v with
      | true => simp [Entries.get?, hKey, ih hRest]
      | false => simp [hKey, ih hRest]

end Table

/-! ## Name sets -/

/-- A set of names, listed in ascending order. -/
abbrev NameSet := Table Unit

namespace NameSet

/-- The set of the listed names. -/
def ofNames (names : List String) : NameSet := Table.ofList (names.map (·, ()))

/-- The set with one more name. -/
def add (s : NameSet) (name : String) : NameSet := s.insert name ()

/-- The set with every listed name added. -/
def addAll (s : NameSet) (names : List String) : NameSet := names.foldl add s

theorem contains_add (s : NameSet) (name other : String) :
    (s.add name).contains other = (decide (other = name) || s.contains other) :=
  Table.contains_insert s name other ()

theorem contains_erase (s : NameSet) (name other : String) :
    (s.erase name).contains other = (s.contains other && decide (other ≠ name)) := by
  rw [Table.contains, Table.get?_erase]
  by_cases h : other = name <;> simp [h, Table.contains]

/-- The names of a set with more names. -/
theorem mem_keys_addAll {s : NameSet} {names : List String} {name : String} :
    name ∈ (s.addAll names).keys ↔ name ∈ names ∨ name ∈ s.keys := by
  induction names generalizing s with
  | nil => simp [addAll]
  | cons other rest ih =>
    show name ∈ ((s.add other).addAll rest).keys ↔ _
    rw [ih, Table.mem_keys, contains_add, Bool.or_eq_true, decide_eq_true_iff, ← Table.mem_keys,
      List.mem_cons, or_left_comm, or_assoc]

end NameSet

end Onboarding
