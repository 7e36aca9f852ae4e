import Onboarding.Proofs.Json.Reading

/-!
# Onboarding — the texts that are read

Reading is described without the automaton: a text is a readable value exactly
if it is the text of a page, and then the value is what the page says. That the
text of a page is read is `Page.read?_text`; here a page is found for every text
that is read.

The depth limit, numerals beyond the doubles and lone surrogates make a part
unreadable, and no step of a reader gets rid of an unreadable part
(`Reader.readable_of_step`). So a reader on the way to a readable document has
met none of them.

The tokens are taken off the front of the text one after the other; for values,
items and members together this is an induction on the length of the text.

## Results

* `Reader.readable_of_result` — a readable result has only readable parts.
* `exists_name`, `exists_numeral`, `exists_literal` — a text that is read goes on
  with the rest of the token that the reader is in.
* `exists_written` — a text that is read goes on with a written value where the
  reader expects a value.
* `read?_eq_some_iff` — the texts of readable values are those of pages.
-/

namespace Onboarding.Json

/-! ## Readable parts -/

/-- Items are readable if each of them is. -/
theorem areReadable_iff {xs : List Document} :
    Document.areReadable xs = true ↔ ∀ x ∈ xs, x.isReadable = true := by
  induction xs with
  | nil => simp [Document.areReadable]
  | cons x xs ih => simp [Document.areReadable, ih]

/-- Members are readable if the value of each of them is. -/
theorem membersReadable_iff {ms : List (String × Document)} :
    Document.membersReadable ms = true ↔ ∀ m ∈ ms, m.2.isReadable = true := by
  induction ms with
  | nil => simp [Document.membersReadable]
  | cons m ms ih =>
    obtain ⟨k, x⟩ := m
    simp [Document.membersReadable, ih]

mutual

/-- What says a value is readable. -/
theorem isReadable_of_toJson? : ∀ {d : Document} {v : Json}, d.toJson? = some v →
    d.isReadable = true
  | .null, _, _ => rfl
  | .bool _, _, _ => rfl
  | .number _, _, _ => rfl
  | .string _, _, _ => rfl
  | .unreadable, _, h => by simp [Document.toJson?] at h
  | .array xs, _, h => by
    simp only [Document.toJson?, Option.map_eq_some_iff] at h
    obtain ⟨vs, hvs, -⟩ := h
    exact areReadable_of_toItems? hvs
  | .object ms, _, h => by
    simp only [Document.toJson?, Option.map_eq_some_iff] at h
    obtain ⟨vs, hvs, -⟩ := h
    exact membersReadable_of_toMembers? hvs

/-- Items that have values can be read. -/
theorem areReadable_of_toItems? : ∀ {xs : List Document} {vs : List Json},
    Document.toItems? xs = some vs → Document.areReadable xs = true
  | [], _, _ => rfl
  | x :: xs, _, h => by
    simp only [Document.toItems?, Option.bind_eq_some_iff, Option.map_eq_some_iff] at h
    obtain ⟨v, hv, vs, hvs, -⟩ := h
    rw [Document.areReadable, isReadable_of_toJson? hv, areReadable_of_toItems? hvs]
    rfl

theorem membersReadable_of_toMembers? : ∀ {ms : List (String × Document)}
    {vs : List (String × Json)}, Document.toMembers? ms = some vs →
    Document.membersReadable ms = true
  | [], _, _ => rfl
  | (k, x) :: ms, _, h => by
    simp only [Document.toMembers?, Option.bind_eq_some_iff, Option.map_eq_some_iff] at h
    obtain ⟨v, hv, vs, hvs, -⟩ := h
    rw [Document.membersReadable, isReadable_of_toJson? hv, membersReadable_of_toMembers? hvs]
    rfl

end

/-- Whether an open container holds only readable parts. -/
def Frame.Readable : Frame → Prop
  | .array items => Document.areReadable items = true
  | .object members _ keysReadable => Document.membersReadable members = true ∧ keysReadable = true

namespace Reader

/-- Whether the reader holds only readable parts. A complete document is all that counts. -/
def Readable (r : Reader) : Prop :=
  match r.phase with
  | .done v => v.isReadable = true
  | _ => ∀ f ∈ r.stack, f.Readable

/-- A completed value leaves only readable parts if it is readable itself. -/
theorem readable_complete {stack : List Frame} {v : Document} :
    (complete stack v).Readable ↔ v.isReadable = true ∧ ∀ f ∈ stack, f.Readable := by
  cases stack with
  | nil => simp [complete, Readable]
  | cons f stack =>
    cases f with
    | array items =>
      simp [complete, Readable, Frame.Readable, Document.areReadable, and_assoc]
    | object members key keysReadable =>
      simp [complete, Readable, Frame.Readable, Document.membersReadable, and_assoc]

/-- An array is closed by its own bracket, and at an allowed depth if it is to be readable. -/
theorem readable_of_close_array {items : List Document} {stack : List Frame} {c : Char}
    {r : Reader}
    (h : close (.array items :: stack) c = some r) (hReadable : r.Readable) :
    (∀ f ∈ Frame.array items :: stack, f.Readable) ∧ stack.length + 1 ≤ maxDepth ∧ c = ']' ∧
      r = complete stack (.array items.reverse) := by
  simp only [close, List.length_cons, Option.ite_none_right_eq_some, Option.some.injEq] at h
  obtain ⟨rfl, rfl⟩ := h
  by_cases hDeep : maxDepth < stack.length + 1
  · -- too deep an array would itself be an unreadable part
    rw [if_pos hDeep, readable_complete] at hReadable
    exact absurd hReadable.1 (by simp [Document.isReadable])
  · rw [if_neg hDeep] at hReadable ⊢
    obtain ⟨hItems, hStack⟩ := readable_complete.mp hReadable
    refine ⟨List.forall_mem_cons.mpr ⟨?_, hStack⟩, Nat.not_lt.mp hDeep, rfl, rfl⟩
    rw [Document.isReadable, areReadable_iff] at hItems
    exact areReadable_iff.mpr fun x hx => hItems x (List.mem_reverse.mpr hx)

/-- An object is closed by its own brace, likewise. -/
theorem readable_of_close_object {members : List (String × Document)} {key : String}
    {keysReadable : Bool} {stack : List Frame} {c : Char} {r : Reader}
    (h : close (.object members key keysReadable :: stack) c = some r) (hReadable : r.Readable) :
    (∀ f ∈ Frame.object members key keysReadable :: stack, f.Readable) ∧
      stack.length + 1 ≤ maxDepth ∧ c = '}' ∧ r = complete stack (.object members.reverse) := by
  simp only [close, List.length_cons, Option.ite_none_right_eq_some, Option.some.injEq] at h
  obtain ⟨rfl, rfl⟩ := h
  by_cases hDeep : (decide (maxDepth < stack.length + 1) || !keysReadable) = true
  · rw [if_pos hDeep, readable_complete] at hReadable
    exact absurd hReadable.1 (by simp [Document.isReadable])
  · -- no key was ill formed
    rw [if_neg hDeep] at hReadable ⊢
    rw [Bool.or_eq_true, decide_eq_true_eq, Bool.not_eq_true', not_or, Bool.not_eq_false] at hDeep
    obtain ⟨hMembers, hStack⟩ := readable_complete.mp hReadable
    refine ⟨List.forall_mem_cons.mpr ⟨⟨?_, hDeep.2⟩, hStack⟩, Nat.not_lt.mp hDeep.1, rfl, rfl⟩
    rw [Document.isReadable, membersReadable_iff] at hMembers
    exact membersReadable_iff.mpr fun m hm => hMembers m (List.mem_reverse.mpr hm)

/-- What is open while a container is closed was readable before. -/
theorem readable_of_close {stack : List Frame} {c : Char} {r : Reader}
    (h : close stack c = some r) (hReadable : r.Readable) : ∀ f ∈ stack, f.Readable := by
  cases stack with
  | nil => simp
  | cons f stack =>
    cases f with
    | array items => exact (readable_of_close_array h hReadable).1
    | object members key keysReadable => exact (readable_of_close_object h hReadable).1

theorem readable_of_begin {stack : List Frame} {c : Char} {r : Reader}
    (h : begin stack c = some r) (hReadable : r.Readable) : ∀ f ∈ stack, f.Readable := by
  unfold begin at h
  split at h
  · cases h
    exact fun f hf => hReadable f (List.mem_cons_of_mem _ hf)
  · cases h
    exact fun f hf => hReadable f (List.mem_cons_of_mem _ hf)
  · cases h
    exact hReadable
  · cases h
    exact hReadable
  · cases h
    exact hReadable
  · cases h
    exact hReadable
  · obtain ⟨part, -, rfl⟩ := Option.map_eq_some_iff.mp h
    exact hReadable

theorem readable_of_separate {stack : List Frame} {c : Char} {r : Reader}
    (h : separate stack c = some r) (hReadable : r.Readable) : ∀ f ∈ stack, f.Readable := by
  unfold separate at h
  split at h
  · cases h
    exact hReadable
  · split at h
    · split at h
      · cases h
        exact hReadable
      · cases h
        exact hReadable
      · simp at h
    · exact readable_of_close h hReadable

theorem readable_of_endString {stack : List Frame} {isKey : Bool} {pieces : List Piece}
    (hReadable : (endString stack isKey pieces).Readable) : ∀ f ∈ stack, f.Readable := by
  unfold endString at hReadable
  cases isKey with
  | false => exact (readable_complete.mp hReadable).2
  | true =>
    dsimp only at hReadable
    rw [if_pos rfl] at hReadable
    split at hReadable
    · obtain ⟨hFrame, hStack⟩ := List.forall_mem_cons.mp hReadable
      obtain ⟨hMembers, hKeys⟩ := hFrame
      rw [Bool.and_eq_true] at hKeys
      exact List.forall_mem_cons.mpr ⟨⟨hMembers, hKeys.1⟩, hStack⟩
    · exact hReadable

theorem readable_of_inString {stack : List Frame} {isKey : Bool} {pieces : List Piece}
    {escape : Escape} {c : Char} {r : Reader} (h : inString stack isKey pieces escape c = some r)
    (hReadable : r.Readable) : ∀ f ∈ stack, f.Readable := by
  by_cases hQuote : escape = .none ∧ c = '"'
  · obtain ⟨rfl, rfl⟩ := hQuote
    simp only [inString, if_true, Option.some.injEq] at h
    subst h
    exact readable_of_endString hReadable
  · have hStep := inString_eq_map (s := (pieces, escape)) hQuote stack isKey
    rw [hStep, Option.map_eq_some_iff] at h
    obtain ⟨next, -, rfl⟩ := h
    exact hReadable

theorem readable_of_follow {stack : List Frame} {v : Document} {c : Char} {r : Reader}
    (h : (complete stack v).follow c = some r) (hReadable : r.Readable) :
    ∀ f ∈ stack, f.Readable := by
  cases stack with
  | nil => simp
  | cons f stack =>
    -- completing a value puts it into the innermost container and changes no phase to `done`
    have hStack : ∀ g ∈ (complete (f :: stack) v).stack, g.Readable := by
      cases f <;> exact readable_of_separate h hReadable
    have hComplete : (complete (f :: stack) v).Readable := by
      cases f <;> exact hStack
    exact (readable_complete.mp hComplete).2

/-- No step makes an unreadable part readable. -/
theorem readable_of_step {r next : Reader} {c : Char} (h : r.step c = some next)
    (hReadable : next.Readable) : r.Readable := by
  obtain ⟨stack, phase⟩ := r
  -- one case per phase; the containers change only where a value or a key is completed
  cases phase with
  | done v =>
    simp only [step, Option.ite_none_right_eq_some, Option.some.injEq] at h
    exact h.2 ▸ hReadable
  | separator => exact readable_of_separate h hReadable
  | string isKey pieces escape => exact readable_of_inString h hReadable
  | value =>
    simp only [step] at h
    split at h
    · cases h
      exact hReadable
    · exact readable_of_begin h hReadable
  | firstItem =>
    simp only [step] at h
    split at h
    · cases h
      exact hReadable
    · split at h
      · exact readable_of_close h hReadable
      · exact readable_of_begin h hReadable
  | firstKey =>
    simp only [step] at h
    split at h
    · cases h
      exact hReadable
    · split at h
      · exact readable_of_close h hReadable
      · simp only [Option.ite_none_right_eq_some, Option.some.injEq] at h
        obtain ⟨-, rfl⟩ := h
        exact hReadable
  | key =>
    simp only [step] at h
    split at h
    · cases h
      exact hReadable
    · simp only [Option.ite_none_right_eq_some, Option.some.injEq] at h
      obtain ⟨-, rfl⟩ := h
      exact hReadable
  | colon =>
    simp only [step] at h
    split at h
    · cases h
      exact hReadable
    · simp only [Option.ite_none_right_eq_some, Option.some.injEq] at h
      obtain ⟨-, rfl⟩ := h
      exact hReadable
  | name rest value =>
    simp only [step] at h
    split at h
    · simp only [Option.ite_none_right_eq_some, Option.some.injEq] at h
      obtain ⟨-, rfl⟩ := h
      split at hReadable
      · exact (readable_complete.mp hReadable).2
      · exact hReadable
    · simp at h
  | numeral text part =>
    simp only [step] at h
    split at h
    · cases h
      exact hReadable
    · simp only [Option.ite_none_right_eq_some] at h
      exact readable_of_follow h.2 hReadable

/-- A readable result has only readable parts. -/
theorem readable_of_result {r : Reader} {s : List Char} {d : Document}
    (h : r.result s = some d) (hd : d.isReadable = true) : r.Readable := by
  -- backwards from the complete document, one character at a time
  induction s generalizing r with
  | nil =>
    obtain ⟨stack, phase⟩ := r
    rw [result_nil] at h
    cases phase with
    | done v =>
      cases h
      exact hd
    | numeral text part =>
      simp only [finish, Option.ite_none_right_eq_some, List.isEmpty_iff] at h
      obtain ⟨⟨-, rfl⟩, -⟩ := h
      simp [Readable]
    | _ => simp [finish] at h
  | cons c s ih =>
    rw [result_cons, Option.bind_eq_some_iff] at h
    obtain ⟨next, hStep, hNext⟩ := h
    exact readable_of_step hStep (ih hNext)

end Reader

/-! ## The rest of a token -/

section Tokens

variable {stack : List Frame} {s : List Char} {d : Document}

/-- The blanks that a reader passes over. -/
theorem exists_gap {r : Reader} (hSpace : ∀ c, isSpace c = true → r.step c = some r)
    (h : r.result s = some d) :
    ∃ (gap : Gap) (rest : List Char), s = gap.1 ++ rest ∧ r.result rest = some d ∧
      ∀ c ∈ rest.head?, isSpace c = false := by
  have hBlanks : ∀ c ∈ s.takeWhile isSpace, isSpace c = true :=
    List.all_eq_true.mp List.all_takeWhile
  have hSplit : s = s.takeWhile isSpace ++ s.dropWhile isSpace :=
    List.takeWhile_append_dropWhile.symm
  refine ⟨⟨s.takeWhile isSpace, hBlanks⟩, s.dropWhile isSpace, hSplit, ?_, ?_⟩
  · rw [← result_gap hSpace ⟨s.takeWhile isSpace, hBlanks⟩, ← hSplit]
    exact h
  · intro c hc
    have hHead := List.head?_dropWhile_not isSpace s
    rw [Option.mem_def] at hc
    rw [hc] at hHead
    simpa using hHead

theorem exists_name {name : List Char} {v : Document} (hName : name ≠ [])
    (h : (Reader.mk stack (.name name v)).result s = some d) :
    ∃ rest, s = name ++ rest ∧ (Reader.complete stack v).result rest = some d := by
  -- the reader takes the letters of the name one by one and completes at the last
  induction name generalizing s with
  | nil => exact absurd rfl hName
  | cons c name ih =>
    cases s with
    | nil => simp [Reader.finish] at h
    | cons c' s =>
      rw [Reader.result_cons, Option.bind_eq_some_iff] at h
      obtain ⟨next, hStep, hNext⟩ := h
      simp only [Reader.step, Option.ite_none_right_eq_some, Option.some.injEq] at hStep
      obtain ⟨rfl, rfl⟩ := hStep
      cases name with
      | nil => exact ⟨s, rfl, hNext⟩
      | cons c'' name =>
        obtain ⟨rest, rfl, hRest⟩ := ih (by simp) hNext
        exact ⟨rest, rfl, hRest⟩

theorem exists_numeral {text : List Char} {part : Numeral.Part}
    (h : (Reader.mk stack (.numeral text part)).result s = some d) :
    ∃ digits rest last, s = digits ++ rest ∧ scanNumeral part digits = some last ∧
      last.isComplete = true ∧
      (Reader.complete stack (Reader.numberOf (digits.reverse ++ text))).result rest = some d := by
  induction s generalizing text part with
  | nil =>
    simp only [Reader.result_nil, Reader.finish, Option.ite_none_right_eq_some,
      List.isEmpty_iff] at h
    obtain ⟨⟨hComplete, rfl⟩, hValue⟩ := h
    -- the text ends with the numeral, so no container can be open
    exact ⟨[], [], part, rfl, rfl, hComplete, hValue⟩
  | cons c s ih =>
    rw [Reader.result_cons, Option.bind_eq_some_iff] at h
    obtain ⟨next, hStep, hNext⟩ := h
    simp only [Reader.step] at hStep
    split at hStep
    · next part' hPart =>
      cases hStep
      obtain ⟨digits, rest, last, rfl, hScan, hComplete, hRest⟩ := ih hNext
      refine ⟨c :: digits, rest, last, rfl, ?_, hComplete, ?_⟩
      · rw [scanNumeral, List.foldlM_cons, hPart]
        exact hScan
      · rwa [List.reverse_cons, List.append_assoc]
    · -- the numeral ended before this character
      simp only [Option.ite_none_right_eq_some] at hStep
      refine ⟨[], c :: s, part, rfl, rfl, hStep.1, ?_⟩
      rw [Reader.result_cons, step_complete]
      show (Reader.follow _ c).bind _ = _
      rw [List.reverse_nil, List.nil_append, hStep.2]
      exact hNext

theorem exists_literal {isKey : Bool} (state : List Piece × Escape)
    (h : (Reader.mk stack (.string isKey state.1 state.2)).result s = some d) :
    ∃ body rest pieces, s = body ++ '"' :: rest ∧
      scanLiteral state body = some (pieces, .none) ∧
      (Reader.endString stack isKey pieces).result rest = some d := by
  induction s generalizing state with
  | nil => simp [Reader.finish] at h
  | cons c s ih =>
    rw [Reader.result_cons, Option.bind_eq_some_iff] at h
    obtain ⟨next, hStep, hNext⟩ := h
    rw [Reader.step] at hStep
    by_cases hQuote : state.2 = .none ∧ c = '"'
    · -- the literal ends here
      obtain ⟨pieces, escape⟩ := state
      obtain ⟨rfl, rfl⟩ := hQuote
      simp only [Reader.inString, if_true, Option.some.injEq] at hStep
      subst hStep
      exact ⟨[], s, pieces, rfl, rfl, hNext⟩
    · have hMap := inString_eq_map hQuote stack isKey
      simp only [hMap, Option.map_eq_some_iff] at hStep
      obtain ⟨state', hState, rfl⟩ := hStep
      obtain ⟨body, rest, pieces, rfl, hScan, hRest⟩ := ih _ hNext
      refine ⟨c :: body, rest, pieces, rfl, ?_, hRest⟩
      rw [scanLiteral, List.foldlM_cons, hState]
      exact hScan

end Tokens

/-! ## The rest of a value -/

/-- Whether every text of the length that is read where a value is expected goes on with one. What
is no container may stand at any depth, so the bound is on what is left of the depth. -/
def ReadsValue (n : Nat) : Prop :=
  ∀ (s : List Char) (stack : List Frame) (d : Document), s.length = n → d.isReadable = true →
    (Reader.mk stack .value).result s = some d →
      ∃ (gap : Gap) (w : Written) (rest : List Char), s = gap.1 ++ (w.text ++ rest) ∧
        w.depth ≤ maxDepth - stack.length ∧ (Reader.complete stack w.document).result rest = some d

/-- Whether every text of the length that is read inside an array goes on with items and its end. -/
def ReadsItems (n : Nat) : Prop :=
  ∀ (s : List Char) (stack : List Frame) (done : List Document) (first : Bool) (d : Document),
    s.length = n → d.isReadable = true →
    (Reader.mk (.array done :: stack) (itemPhase first)).result s = some d →
      ∃ (items : WrittenItems) (gap : Gap) (rest : List Char),
        s = items.text first ++ (gap.1 ++ ']' :: rest) ∧
        stack.length + 1 + items.depth ≤ maxDepth ∧
        (Reader.complete stack (.array (done.reverse ++ items.documents))).result rest = some d

/-- Whether every text of the length that is read inside an object goes on with members and its
end. -/
def ReadsMembers (n : Nat) : Prop :=
  ∀ (s : List Char) (stack : List Frame) (done : List (String × Document)) (key : String)
    (keysReadable first : Bool) (d : Document), s.length = n → d.isReadable = true →
    (Reader.mk (.object done key keysReadable :: stack) (memberPhase first)).result s = some d →
      ∃ (members : WrittenMembers) (gap : Gap) (rest : List Char),
        s = members.text first ++ (gap.1 ++ '}' :: rest) ∧
        stack.length + 1 + members.depth ≤ maxDepth ∧
        (Reader.complete stack (.object (done.reverse ++ members.documents))).result rest = some d

/-- A value that a character begins goes on with the rest of it. -/
theorem exists_begun {n : Nat} (hItems : ∀ m < n, ReadsItems m)
    (hMembers : ∀ m < n, ReadsMembers m)
    {stack : List Frame} {c : Char} {next : Reader} {t : List Char} {d : Document}
    (hBegin : Reader.begin stack c = some next) (hShort : t.length < n) (hd : d.isReadable = true)
    (hNext : next.result t = some d) :
    ∃ (w : Written) (rest : List Char), c :: t = w.text ++ rest ∧
      w.depth ≤ maxDepth - stack.length ∧
      (Reader.complete stack w.document).result rest = some d := by
  unfold Reader.begin at hBegin
  -- in the order in which the reader tells values apart
  split at hBegin
  · cases hBegin
    obtain ⟨items, gap, rest, rfl, hDepth, hRest⟩ :=
      hItems _ hShort t stack [] true d rfl hd hNext
    refine ⟨.array items gap, rest, by simp [Written.text], ?_, hRest⟩
    rw [Written.depth]
    omega
  · cases hBegin
    obtain ⟨members, gap, rest, rfl, hDepth, hRest⟩ :=
      hMembers _ hShort t stack [] "" true true d rfl hd hNext
    refine ⟨.object members gap, rest, by simp [Written.text], ?_, hRest⟩
    rw [Written.depth]
    omega
  · cases hBegin
    obtain ⟨body, rest, pieces, rfl, hScan, hRest⟩ := exists_literal ([], .none) hNext
    -- a literal that denotes no string would leave an unreadable part
    have hReadable := (Reader.readable_complete.mp (Reader.readable_of_result hRest hd)).1
    cases hValue : Reader.stringOf? pieces with
    | none => simp [hValue, Document.isReadable] at hReadable
    | some value =>
      have hReads : stringIn? body = some value := by
        rw [stringIn?, hScan]
        exact hValue
      simp only [Reader.endString, hValue] at hRest
      exact ⟨.string ⟨body, value, hReads⟩, rest, by simp [Written.text, StringText.text],
        Nat.zero_le _, hRest⟩
  · cases hBegin
    obtain ⟨rest, rfl, hRest⟩ := exists_name (by simp) hNext
    exact ⟨.name .yes, rest, rfl, Nat.zero_le _, hRest⟩
  · cases hBegin
    obtain ⟨rest, rfl, hRest⟩ := exists_name (by simp) hNext
    exact ⟨.name .no, rest, rfl, Nat.zero_le _, hRest⟩
  · cases hBegin
    obtain ⟨rest, rfl, hRest⟩ := exists_name (by simp) hNext
    exact ⟨.name .null, rest, rfl, Nat.zero_le _, hRest⟩
  · obtain ⟨part, hFirst, rfl⟩ := Option.map_eq_some_iff.mp hBegin
    obtain ⟨digits, rest, last, rfl, hScan, hComplete, hRest⟩ := exists_numeral hNext
    have hReadable := (Reader.readable_complete.mp (Reader.readable_of_result hRest hd)).1
    -- and so would a numeral beyond the doubles
    have hText : (digits.reverse ++ [c]).reverse = c :: digits := by simp
    rw [Reader.numberOf, hText] at hReadable hRest
    cases hValue : Numeral.read? (c :: digits) with
    | none => simp [hValue, Document.isReadable] at hReadable
    | some value =>
      have hReads : number? (c :: digits) = some value := by
        rw [number?, numeralPart?, hFirst, Option.bind_some, hScan]
        simp only [hComplete, if_true]
        exact hValue
      rw [hValue] at hRest
      exact ⟨.numeral ⟨c :: digits, value, hReads⟩, rest, rfl, Nat.zero_le _, hRest⟩

/-- A value goes on with items and members that are shorter than it is. -/
theorem readsValue {n : Nat} (hItems : ∀ m < n, ReadsItems m)
    (hMembers : ∀ m < n, ReadsMembers m) : ReadsValue n := by
  intro s stack d hLength hd h
  obtain ⟨gap, t, rfl, ht, hSpace⟩ := exists_gap step_space_value h
  rw [List.length_append] at hLength
  cases t with
  | nil => simp [Reader.finish] at ht
  | cons c t =>
    have hNotSpace : isSpace c = false := hSpace c (by simp)
    rw [List.length_cons] at hLength
    rw [Reader.result_cons, Option.bind_eq_some_iff] at ht
    obtain ⟨next, hStep, hNext⟩ := ht
    -- behind the gap the character begins a value
    simp only [Reader.step, hNotSpace, Bool.false_eq_true, if_false] at hStep
    obtain ⟨w, rest, hText, hDepth, hRest⟩ :=
      exists_begun hItems hMembers hStep (by omega) hd hNext
    exact ⟨gap, w, rest, by rw [hText], hDepth, hRest⟩

/-- An item that stands in a text before other items and the end of the array. -/
theorem readsItems_cons {n : Nat} (hItems : ∀ m < n, ReadsItems m) {stack : List Frame}
    {done : List Document} {first : Bool} (outer inner : Gap) {w : Written} {s rest : List Char}
    {d : Document} (hText : s = itemLead first outer inner ++ (w.text ++ rest))
    (hShort : rest.length < n) (hd : d.isReadable = true)
    (hDepth : w.depth ≤ maxDepth - (stack.length + 1))
    (hRest : (Reader.complete (.array done :: stack) w.document).result rest = some d) :
    ∃ (items : WrittenItems) (gap : Gap) (rest : List Char),
      s = items.text first ++ (gap.1 ++ ']' :: rest) ∧
      stack.length + 1 + items.depth ≤ maxDepth ∧
      (Reader.complete stack (.array (done.reverse ++ items.documents))).result rest = some d := by
  -- the text behind the first item is shorter, so the hypothesis reads it
  obtain ⟨items, gap, last, rfl, hTail, hLast⟩ :=
    hItems _ hShort rest stack (w.document :: done) false d rfl hd hRest
  refine ⟨.cons outer inner w items, gap, last, ?_, ?_, ?_⟩
  · simp [hText, WrittenItems.text]
  · rw [WrittenItems.depth]
    omega
  · rw [WrittenItems.documents]
    rwa [List.reverse_cons, List.append_assoc] at hLast

/-- Items go on with a value, with more items and with what follows the array. -/
theorem readsItems {n : Nat} (hValue : ∀ m < n, ReadsValue m) (hItems : ∀ m < n, ReadsItems m)
    (hMembers : ∀ m < n, ReadsMembers m) : ReadsItems n := by
  intro s stack done first d hLength hd h
  obtain ⟨gap, t, rfl, ht, hSpace⟩ := exists_gap (step_space_itemPhase first) h
  rw [List.length_append] at hLength
  cases t with
  | nil => cases first <;> simp [Reader.finish, itemPhase] at ht
  | cons c t =>
    have hNotSpace : isSpace c = false := hSpace c (by simp)
    rw [List.length_cons] at hLength
    rw [Reader.result_cons, Option.bind_eq_some_iff] at ht
    obtain ⟨next, hStep, hNext⟩ := ht
    -- behind the blanks either the array ends or another item follows
    have hEnd (hClose : Reader.close (.array done :: stack) c = some next) :
        ∃ (items : WrittenItems) (gap' : Gap) (rest : List Char),
          gap.1 ++ c :: t = items.text first ++ (gap'.1 ++ ']' :: rest) ∧
          stack.length + 1 + items.depth ≤ maxDepth ∧
          (Reader.complete stack (.array (done.reverse ++ items.documents))).result rest =
            some d := by
      obtain ⟨-, hDepth, rfl, rfl⟩ :=
        Reader.readable_of_close_array hClose (Reader.readable_of_result hNext hd)
      refine ⟨.nil, gap, t, rfl, hDepth, ?_⟩
      rwa [WrittenItems.documents, List.append_nil]
    cases first with
    | true =>
      simp only [itemPhase, if_true, Reader.step, hNotSpace, Bool.false_eq_true, if_false] at hStep
      split at hStep
      · exact hEnd hStep
      · obtain ⟨w, rest, hText, hDepth, hRest⟩ :=
          exists_begun hItems hMembers hStep (by omega) hd hNext
        have hLength' := congrArg List.length hText
        obtain ⟨c', text, hFirst, -⟩ := w.text_eq_cons
        rw [hFirst, List.length_append, List.length_cons, List.length_cons] at hLength'
        exact readsItems_cons hItems gap Gap.none
          (by simp [itemLead, comma, Gap.none, hText]) (by omega) hd hDepth hRest
    | false =>
      simp only [itemPhase, Reader.step, Reader.separate, hNotSpace, Bool.false_eq_true,
        if_false] at hStep
      split at hStep
      · next hComma =>
        cases hStep
        obtain ⟨inner, w, rest, rfl, hDepth, hRest⟩ := hValue _ (by omega) t _ d rfl hd hNext
        rw [List.length_append, List.length_append] at hLength
        exact readsItems_cons hItems gap inner
          (by simp [itemLead, comma, hComma]) (by omega) hd hDepth hRest
      · exact hEnd hStep

/-- A key that a quote begins goes on with the rest of it and with the member. -/
theorem exists_member {n : Nat} (hValue : ∀ m < n, ReadsValue m)
    (hMembers : ∀ m < n, ReadsMembers m) {stack : List Frame} {done : List (String × Document)}
    {key : String} {keysReadable : Bool} (first : Bool) (outer inner : Gap) {t : List Char}
    {d : Document}
    (hShort : t.length < n) (hd : d.isReadable = true)
    (h : (Reader.mk (.object done key keysReadable :: stack)
      (.string true [] .none)).result t = some d) :
    ∃ (members : WrittenMembers) (gap : Gap) (rest : List Char),
      itemLead first outer inner ++ '"' :: t = members.text first ++ (gap.1 ++ '}' :: rest) ∧
      stack.length + 1 + members.depth ≤ maxDepth ∧
      (Reader.complete stack (.object (done.reverse ++ members.documents))).result rest =
        some d := by
  obtain ⟨body, afterKey, pieces, rfl, hScan, hKey⟩ := exists_literal ([], .none) h
  have hReadable := Reader.readable_of_result hKey hd
  cases hString : Reader.stringOf? pieces with
  | none =>
    -- the open object would remember the ill-formed key
    simp only [Reader.endString, hString, if_true] at hReadable
    have hFrame := (List.forall_mem_cons.mp hReadable).1
    simp [Frame.Readable] at hFrame
  | some value =>
    have hReads : stringIn? body = some value := by
      rw [stringIn?, hScan]
      exact hString
    simp only [Reader.endString, hString, if_true] at hKey
    obtain ⟨before, s, rfl, hs, hSpace⟩ := exists_gap step_space_colon hKey
    cases s with
    | nil => simp [Reader.finish] at hs
    | cons c s =>
      have hNotSpace : isSpace c = false := hSpace c (by simp)
      rw [Reader.result_cons, Option.bind_eq_some_iff] at hs
      obtain ⟨next, hStep, hNext⟩ := hs
      simp only [Reader.step, hNotSpace, Bool.false_eq_true, if_false,
        Option.ite_none_right_eq_some, Option.some.injEq] at hStep
      obtain ⟨rfl, rfl⟩ := hStep
      simp only [List.length_append, List.length_cons] at hShort
      obtain ⟨after, w, rest, rfl, hDepth, hRest⟩ := hValue _ (by omega) s _ d rfl hd hNext
      simp only [List.length_append] at hShort
      obtain ⟨members, gap, last, rfl, hTail, hLast⟩ := hMembers _ (by omega) rest stack
        ((value, w.document) :: done) value _ false d rfl hd hRest
      rw [List.length_cons] at hDepth
      refine ⟨.cons outer inner ⟨body, value, hReads⟩ before after w members, gap, last,
        ?_, ?_, ?_⟩
      · simp [WrittenMembers.text, memberLead, StringText.text]
      · rw [WrittenMembers.depth]
        omega
      · rw [WrittenMembers.documents]
        rwa [List.reverse_cons, List.append_assoc] at hLast

/-- Members go on with a value, with more members and with what follows the object. -/
theorem readsMembers {n : Nat} (hValue : ∀ m < n, ReadsValue m)
    (hMembers : ∀ m < n, ReadsMembers m) : ReadsMembers n := by
  intro s stack done key keysReadable first d hLength hd h
  obtain ⟨gap, t, rfl, ht, hSpace⟩ := exists_gap (step_space_memberPhase first) h
  rw [List.length_append] at hLength
  cases t with
  | nil => cases first <;> simp [Reader.finish, memberPhase] at ht
  | cons c t =>
    have hNotSpace : isSpace c = false := hSpace c (by simp)
    rw [List.length_cons] at hLength
    rw [Reader.result_cons, Option.bind_eq_some_iff] at ht
    obtain ⟨next, hStep, hNext⟩ := ht
    -- behind the blanks either the object ends or another member follows
    have hEnd (hClose : Reader.close (.object done key keysReadable :: stack) c = some next) :
        ∃ (members : WrittenMembers) (gap' : Gap) (rest : List Char),
          gap.1 ++ c :: t = members.text first ++ (gap'.1 ++ '}' :: rest) ∧
          stack.length + 1 + members.depth ≤ maxDepth ∧
          (Reader.complete stack (.object (done.reverse ++ members.documents))).result rest =
            some d := by
      obtain ⟨-, hDepth, rfl, rfl⟩ :=
        Reader.readable_of_close_object hClose (Reader.readable_of_result hNext hd)
      refine ⟨.nil, gap, t, rfl, hDepth, ?_⟩
      rwa [WrittenMembers.documents, List.append_nil]
    cases first with
    | true =>
      simp only [memberPhase, if_true, Reader.step, hNotSpace, Bool.false_eq_true,
        if_false] at hStep
      split at hStep
      · exact hEnd hStep
      · simp only [Option.ite_none_right_eq_some, Option.some.injEq] at hStep
        obtain ⟨rfl, rfl⟩ := hStep
        have hMember := exists_member hValue hMembers true gap Gap.none (by omega) hd hNext
        simpa [itemLead, comma, Gap.none] using hMember
    | false =>
      simp only [memberPhase, Reader.step, Reader.separate, hNotSpace, Bool.false_eq_true,
        if_false] at hStep
      split at hStep
      · next hComma =>
        cases hStep
        obtain ⟨inner, s, rfl, hs, hSpace'⟩ := exists_gap step_space_key hNext
        cases s with
        | nil => simp [Reader.finish] at hs
        | cons c' s =>
          have hNotSpace' : isSpace c' = false := hSpace' c' (by simp)
          rw [Reader.result_cons, Option.bind_eq_some_iff] at hs
          obtain ⟨next, hStep, hNext⟩ := hs
          simp only [Reader.step, hNotSpace', Bool.false_eq_true, if_false,
            Option.ite_none_right_eq_some, Option.some.injEq] at hStep
          obtain ⟨rfl, rfl⟩ := hStep
          simp only [List.length_append, List.length_cons] at hLength
          have hMember := exists_member hValue hMembers false gap inner (by omega) hd hNext
          simpa [itemLead, comma, hComma] using hMember
      · exact hEnd hStep

/-- Every text that is read where a value is expected goes on with one. -/
theorem exists_written (n : Nat) : ReadsValue n ∧ ReadsItems n ∧ ReadsMembers n := by
  -- a value, its items and its members are all shorter than the text they stand in
  induction n using Nat.strongRecOn with
  | ind n ih =>
    have hValue : ∀ m < n, ReadsValue m := fun m hm => (ih m hm).1
    have hItems : ∀ m < n, ReadsItems m := fun m hm => (ih m hm).2.1
    have hMembers : ∀ m < n, ReadsMembers m := fun m hm => (ih m hm).2.2
    exact ⟨readsValue hItems hMembers, readsItems hValue hItems hMembers,
      readsMembers hValue hMembers⟩

/-! ## Whole texts -/

/-- A text that is read and readable is the text of a page. -/
theorem exists_page {s : List Char} {d : Document} (h : Document.read? s = some d)
    (hd : d.isReadable = true) : ∃ p : Page, p.text = s ∧ p.root.document = d := by
  obtain ⟨gap, w, rest, rfl, hDepth, hRest⟩ := (exists_written s.length).1 s [] d rfl hd h
  obtain ⟨after, t, rfl, ht, hSpace⟩ := exists_gap (r := Reader.complete [] w.document)
    (fun c hc => by simp [Reader.complete, Reader.step, hc]) hRest
  cases t with
  | nil =>
    -- only blanks follow the root
    refine ⟨⟨gap, w, after, hDepth⟩, by simp [Page.text], ?_⟩
    simpa [Reader.complete, Reader.finish] using ht
  | cons c t =>
    have hNotSpace : isSpace c = false := hSpace c (by simp)
    simp [Reader.complete, Reader.step, hNotSpace] at ht

/-- The texts of readable values are those of pages. -/
theorem read?_eq_some_iff {s : List Char} {v : Json} :
    Json.read? s = some v ↔ ∃ p : Page, p.text = s ∧ p.root.document.toJson? = some v := by
  rw [Json.read?, Option.bind_eq_some_iff]
  constructor
  · rintro ⟨d, hRead, hv⟩
    obtain ⟨p, hText, rfl⟩ := exists_page hRead (isReadable_of_toJson? hv)
    exact ⟨p, hText, hv⟩
  · rintro ⟨p, rfl, hv⟩
    exact ⟨p.root.document, p.read?_text, hv⟩

end Onboarding.Json
