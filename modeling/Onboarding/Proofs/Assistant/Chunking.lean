import Mathlib.Data.List.Induction
import Mathlib.Data.List.ReduceOption
import Onboarding.Proofs.Assistant.Classification

/-!
# Onboarding — how a text is cut into chunks

A field scanner goes over the characters of a text, so where the text is cut
makes no difference to what it finds, only to which push tells it. A scanner
that finds the field's string does so at one character, the closing quote of
the string (`FieldScanner.exists_value_of_found`), and is settled from then on;
the push of the chunk that holds this character tells the string, and no other
push tells anything. An assembly gathers the same text and asks the same
scanner.

## Results

* `FieldScanner.pushAll_fst` — a run over chunks is a run over their text.
* `FieldScanner.exists_opening` — a scanner inside a literal came to it by its
  opening quote, and has taken what stands between.
* `FieldScanner.exists_telling_chunk` — which push tells the string.
* `Assembly.same_of_flatten_eq` — two ways of cutting a text make no difference,
  for the scanner of any field and for an assembly.
-/

namespace Onboarding

namespace FieldScanner

/-- Take the chunks in turn; what each push tells. -/
def pushAll (s : FieldScanner) : List (List Char) → FieldScanner × List (Option (List Char))
  | [] => (s, [])
  | chunk :: rest =>
    let (next, told) := s.push chunk
    let (last, more) := pushAll next rest
    (last, told :: more)

/-- A run over chunks is a run over their text. -/
theorem pushAll_fst (s : FieldScanner) (chunks : List (List Char)) :
    (s.pushAll chunks).1 = s.advance chunks.flatten := by
  induction chunks generalizing s with
  | nil => rfl
  | cons chunk rest ih =>
    rw [List.flatten_cons, advance_append, ← ih]
    rfl

/-! ## The character that settles a scanner -/

theorem found_eq_none {s : FieldScanner} (h : s.isSettled = false) : s.found = none := by
  rw [isSettled, Bool.or_eq_false_iff] at h
  exact Option.not_isSome_iff_eq_none.mp (Bool.not_eq_true _ ▸ h.2)

/-- A scanner that is not settled was not settled before. -/
theorem isSettled_of_append {s : FieldScanner} {t u : List Char}
    (h : (s.advance (t ++ u)).isSettled = false) : (s.advance t).isSettled = false := by
  rw [← Bool.not_eq_true]
  intro hSettled
  rw [advance_append, advance_of_isSettled hSettled, hSettled] at h
  cases h

/-- A scanner that finds a string does so at one character, and is not settled before it. -/
theorem exists_finding_char {s : FieldScanner} {t v : List Char} (hNone : s.found = none)
    (hFound : (s.advance t).found = some v) :
    ∃ front c back, t = front ++ c :: back ∧ (s.advance front).isSettled = false ∧
      ((s.advance front).step c).found = some v := by
  induction t generalizing s with
  | nil =>
    rw [advance, hNone] at hFound
    cases hFound
  | cons c t ih =>
    cases hSettled : s.isSettled with
    | true =>
      -- a settled scanner stays as it is, so it finds nothing
      rw [advance_of_isSettled hSettled, hNone] at hFound
      cases hFound
    | false =>
      rw [advance_cons hSettled] at hFound
      cases hStep : (s.step c).found with
      | none =>
        obtain ⟨front, d, back, rfl, hFront, hHere⟩ := ih hStep hFound
        refine ⟨c :: front, d, back, rfl, ?_⟩
        rw [advance_cons hSettled]
        exact ⟨hFront, hHere⟩
      | some w =>
        have hNext : (s.step c).isSettled = true := by simp [isSettled, hStep]
        rw [advance_of_isSettled hNext, hStep] at hFound
        exact ⟨[], c, t, rfl, hSettled, hStep.trans hFound⟩

/-- Only a closing quote finds a string: it ends a captured literal in the place of a watched
value. -/
theorem step_found {s : FieldScanner} {c : Char} {v : List Char} (hNone : s.found = none)
    (hFound : (s.step c).found = some v) :
    c = '"' ∧ s.literal = some ⟨some v.reverse, false⟩ ∧ s.place = .value ∧
      s.isWatched = true := by
  unfold step at hFound
  split at hFound
  · split at hFound <;> simp [hNone] at hFound
  · split at hFound
    · next literal hLiteral =>
      obtain ⟨captured, escaped⟩ := literal
      -- inside a literal: only its end looks at what was captured
      unfold stepLiteral at hFound
      split at hFound
      · simp [hNone] at hFound
      · next hEscaped =>
        split at hFound
        · simp [hNone] at hFound
        · split at hFound
          · next hQuote =>
            simp only [Bool.not_eq_true] at hEscaped
            subst hEscaped hQuote
            rw [closeLiteral] at hFound
            split at hFound
            · simp [hNone] at hFound
            · next text hCaptured hPlace =>
              simp only at hCaptured hPlace hFound
              split at hFound
              · next hWatched =>
                simp only [Option.some.injEq] at hFound
                refine ⟨rfl, ?_, hPlace, hWatched.1⟩
                rw [hLiteral, hCaptured, ← hFound, List.reverse_reverse]
              · simp [hNone] at hFound
            · simp [hNone] at hFound
          · simp [hNone] at hFound
    · -- outside of literals nothing is found
      unfold stepObject openLiteral at hFound
      repeat' split at hFound
      all_goals simp [hNone] at hFound

/-! ## Back to the opening quote -/

/-- Whether a backslash is pending behind the inside of a literal, if no quote has ended the literal
before. -/
def pending? (escaped : Bool) : List Char → Option Bool
  | [] => some escaped
  | c :: rest =>
    if escaped then pending? false rest
    else if c = '\\' then pending? true rest
    else if c = '"' then none
    else pending? false rest

theorem pending?_append {escaped next : Bool} {body : List Char}
    (h : pending? escaped body = some next) (more : List Char) :
    pending? escaped (body ++ more) = pending? next more := by
  fun_induction pending? escaped body with
  | case1 => cases h; rfl
  | case2 c rest ih => simpa [pending?] using ih h
  | case3 escaped rest hEscaped ih => simpa [pending?, hEscaped] using ih h
  | case4 => cases h
  | case5 escaped c rest hEscaped hBack hQuote ih =>
    simpa [pending?, hEscaped, hBack, hQuote] using ih h

theorem reading_append {escaped next : Bool} {body : List Char}
    (h : pending? escaped body = some next) (more : List Char) :
    reading escaped (body ++ more) = reading escaped body ++ reading next more := by
  fun_induction pending? escaped body with
  | case1 => cases h; rfl
  | case2 c rest ih => simp [reading, ih h]
  | case3 escaped rest hEscaped ih => simp [reading, hEscaped, ih h]
  | case4 => cases h
  | case5 escaped c rest hEscaped hBack hQuote ih => simp [reading, hEscaped, hBack, ih h]

/-- A step that stays inside a literal takes the character as the literal reads it. -/
theorem step_inside {s : FieldScanner} {captured : Option (List Char)} {escaped : Bool} {c : Char}
    (hDepth : s.depth ≠ 0) (hInside : ((s.inside captured escaped).step c).literal ≠ none) :
    ∃ next, pending? escaped [c] = some next ∧ (s.inside captured escaped).step c =
      s.inside (captured.map ((reading escaped [c]).reverse ++ ·)) next := by
  rw [step, if_neg (by exact hDepth)] at hInside ⊢
  simp only [inside, stepLiteral] at hInside ⊢
  cases escaped with
  | true => exact ⟨false, rfl, by simp [reading]⟩
  | false =>
    by_cases hBack : c = '\\'
    · exact ⟨true, by simp [pending?, hBack], by simp [reading, hBack]⟩
    · by_cases hQuote : c = '"'
      · -- the quote would end the literal
        subst hQuote
        simp only [Bool.false_eq_true, if_false, hBack, if_true, closeLiteral] at hInside
        split at hInside <;> try split at hInside
        all_goals exact absurd rfl hInside
      · exact ⟨false, by simp [pending?, hBack, hQuote], by simp [reading, hBack, hQuote]⟩

/-- A step from outside of literals into one is an opening quote. -/
theorem step_opens {s : FieldScanner} {c : Char} (hOutside : s.literal = none)
    (hInside : (s.step c).literal ≠ none) :
    c = '"' ∧ s.depth ≠ 0 ∧ s.step c = s.openLiteral := by
  have hDepth : s.depth ≠ 0 := by
    intro hZero
    rw [step, if_pos hZero] at hInside
    split at hInside <;> exact hInside hOutside
  rw [step, if_neg hDepth, hOutside] at hInside ⊢
  simp only [stepObject] at hInside ⊢
  split
  · next hQuote => exact ⟨hQuote, hDepth, rfl⟩
  · next hQuote =>
    simp only [hQuote, if_false] at hInside
    repeat' split at hInside
    all_goals exact absurd hOutside hInside

/-- A scanner inside a literal came to it by its opening quote, and has taken what stands between as
the literal reads it. -/
theorem exists_opening {start : FieldScanner} (hStart : start.literal = none) (t : List Char)
    (hOpen : (start.advance t).isSettled = false) (hInside : (start.advance t).literal ≠ none) :
    ∃ lead body captured escaped, t = lead ++ '"' :: body ∧ pending? false body = some escaped ∧
      (start.advance lead).literal = none ∧ (start.advance lead).depth ≠ 0 ∧
      (start.advance lead).openLiteral.literal = some ⟨captured, false⟩ ∧
      start.advance t = (start.advance lead).openLiteral.inside
        (captured.map ((reading false body).reverse ++ ·)) escaped := by
  -- by induction on the text from its end: the last character opens the literal or goes on in it
  induction t using List.reverseRecOn with
  | nil => exact absurd hStart hInside
  | append_singleton t c ih =>
    have hBefore : (start.advance t).isSettled = false := isSettled_of_append hOpen
    have hStep : start.advance (t ++ [c]) = (start.advance t).step c := by
      rw [advance_append, advance_cons hBefore]
      rfl
    rw [hStep] at hInside ⊢
    by_cases hOutside : (start.advance t).literal = none
    · obtain ⟨rfl, hDepth, hOpened⟩ := step_opens hOutside hInside
      refine ⟨t, [], _, false, rfl, rfl, hOutside, hDepth, rfl, ?_⟩
      rw [hOpened]
      simp only [inside, openLiteral, reading, List.reverse_nil, List.nil_append, Option.map_id']
    · obtain ⟨lead, body, captured, escaped, rfl, hPending, hLead, hDepth, hQuote, hHere⟩ :=
        ih hBefore hOutside
      rw [hHere] at hInside ⊢
      obtain ⟨next, hNext, hTaken⟩ := step_inside (by exact hDepth) hInside
      refine ⟨lead, body ++ [c], captured, next, by simp, ?_, hLead, hDepth, hQuote, ?_⟩
      · rw [pending?_append hPending, hNext]
      · rw [hTaken, Option.map_map, reading_append hPending]
        simp [Function.comp_def]

/-- The scanner expects the value of a member that is called by the field's name. -/
structure AwaitsValue (s : FieldScanner) : Prop where
  literal : s.literal = none
  depth : s.depth = 1
  place : s.place = .value
  isWatched : s.isWatched = true

/-- The text ends inside the field's string, behind all of it but its closing quote: an opening
quote stands where the value of the field is expected, and `value` is what the scanner takes of the
literal. -/
def EndsInValue (key : String) (value text : List Char) : Prop :=
  ∃ lead body, text = lead ++ '"' :: body ∧ pending? false body = some false ∧
    reading false body = value ∧ ((ofKey key).advance lead).AwaitsValue

/-- What a scanner finds is found with the closing quote of the field's string. -/
theorem exists_value_of_found {key : String} {t v : List Char}
    (hFound : ((ofKey key).advance t).found = some v) :
    ∃ front back, t = front ++ '"' :: back ∧ EndsInValue key v front ∧
      ((ofKey key).advance front).isSettled = false ∧
      ((ofKey key).advance (front ++ ['"'])).found = some v := by
  obtain ⟨front, c, back, rfl, hOpen, hHere⟩ := exists_finding_char rfl hFound
  obtain ⟨rfl, hLiteral, hPlace, hWatched⟩ := step_found (found_eq_none hOpen) hHere
  refine ⟨front, back, rfl, ?_, hOpen, ?_⟩
  · obtain ⟨lead, body, captured, escaped, rfl, hPending, hLead, -, hQuote, hInside⟩ :=
      exists_opening rfl front hOpen (by simp [hLiteral])
    rw [hInside] at hLiteral hPlace hWatched
    simp only [inside, Option.some.injEq, Literal.mk.injEq, Option.map_eq_some_iff] at hLiteral
    obtain ⟨⟨taken, rfl, hTaken⟩, rfl⟩ := hLiteral
    -- the literal was captured, and it is no key, so the field's value was expected
    simp only [openLiteral, inside, Option.some.injEq, Literal.mk.injEq, and_true] at hQuote hPlace
    split at hQuote
    · next hMatters =>
      cases hQuote
      rw [if_neg (fun h => h.2.2 hMatters)] at hPlace
      rcases hMatters.2 with hKey | ⟨-, hValue⟩
      · rw [hPlace] at hKey
        cases hKey
      · rw [List.append_nil, List.reverse_inj] at hTaken
        exact ⟨lead, body, rfl, hPending, hTaken, hLead, hMatters.1, hPlace, hValue⟩
    · cases hQuote
  · rw [advance_append, advance_cons hOpen]
    exact hHere

/-! ## The push that tells -/

/-- A push tells what its chunk lets the scanner find, unless that was told before. -/
theorem push_snd (s : FieldScanner) (chunk : List Char) :
    (s.push chunk).2 = if s.isSettled then none else (s.advance chunk).found := by
  unfold push
  rfl

/-- A settled scanner tells nothing more. -/
theorem pushAll_snd_of_isSettled {s : FieldScanner} (h : s.isSettled = true)
    (chunks : List (List Char)) :
    (s.pushAll chunks).2 = List.replicate chunks.length none := by
  induction chunks with
  | nil => rfl
  | cons chunk rest ih =>
    have hSame : (s.push chunk).1 = s := advance_of_isSettled h chunk
    rw [pushAll]
    simp only [push_snd, h, if_true, hSame, ih]
    rfl

/-- A scanner that finds nothing tells nothing. -/
theorem pushAll_snd_of_found_eq_none {s : FieldScanner} (chunks : List (List Char))
    (h : (s.advance chunks.flatten).found = none) :
    (s.pushAll chunks).2 = List.replicate chunks.length none := by
  induction chunks generalizing s with
  | nil => rfl
  | cons chunk rest ih =>
    rw [List.flatten_cons, advance_append] at h
    -- what is found is never lost
    have hHere : (s.advance chunk).found = none := by
      cases hFound : (s.advance chunk).found with
      | none => rfl
      | some v =>
        rw [advance_of_isSettled (by simp [isSettled, hFound]), hFound] at h
        cases h
    rw [pushAll]
    simp only [push_snd, hHere, ite_self]
    rw [show (s.push chunk).1 = s.advance chunk from rfl, ih h]
    rfl

/-- The push of the chunk that holds the character at which the scanner finds its string tells the
string, and no other push tells anything. -/
theorem exists_telling_chunk {s : FieldScanner} {front back v : List Char} {c : Char}
    {chunks : List (List Char)} (hText : chunks.flatten = front ++ c :: back)
    (hOpen : (s.advance front).isSettled = false)
    (hFound : (s.advance (front ++ [c])).found = some v) :
    ∃ before start rest after, chunks = before ++ (start ++ c :: rest) :: after ∧
      before.flatten ++ start = front ∧
      (s.pushAll chunks).2 =
        List.replicate before.length none ++ some v :: List.replicate after.length none := by
  induction chunks generalizing s front with
  | nil => simp at hText
  | cons chunk chunks ih =>
    -- the character stands in this chunk or behind it
    by_cases hHere : ∃ rest, chunk = front ++ c :: rest
    · obtain ⟨rest, rfl⟩ := hHere
      have hSettled : (s.advance (front ++ [c])).isSettled = true := by simp [isSettled, hFound]
      have hChunk : s.advance (front ++ c :: rest) = s.advance (front ++ [c]) := by
        rw [List.append_cons, advance_append, advance_of_isSettled hSettled]
      have hStart : s.isSettled = false := isSettled_of_append (t := []) hOpen
      refine ⟨[], front, rest, chunks, rfl, rfl, ?_⟩
      rw [pushAll]
      simp only [push_snd, hStart, hChunk, hFound, Bool.false_eq_true, if_false]
      rw [show (s.push (front ++ c :: rest)).1 = s.advance (front ++ c :: rest) from rfl, hChunk,
        pushAll_snd_of_isSettled hSettled]
      rfl
    · obtain ⟨more, rfl, hRest⟩ :
          ∃ more, front = chunk ++ more ∧ chunks.flatten = more ++ c :: back := by
        rw [List.flatten_cons, List.append_eq_append_iff] at hText
        rcases hText with ⟨more, hFront, hRest⟩ | ⟨more, hChunk, hBack⟩
        · exact ⟨more, hFront, hRest⟩
        · cases more with
          | nil => exact ⟨[], by simpa using hChunk.symm, by simpa using hBack.symm⟩
          | cons d more =>
            obtain ⟨rfl, -⟩ := List.cons.inj hBack
            exact absurd ⟨more, hChunk⟩ hHere
      have hChunk : (s.advance chunk).found = none := found_eq_none (isSettled_of_append hOpen)
      rw [advance_append] at hOpen
      rw [List.append_assoc, advance_append] at hFound
      obtain ⟨before, start, rest, after, rfl, hFront, hTold⟩ := ih hRest hOpen hFound
      refine ⟨chunk :: before, start, rest, after, rfl, by simp [← hFront], ?_⟩
      rw [pushAll]
      simp only [push_snd, hChunk, ite_self]
      rw [show (s.push chunk).1 = s.advance chunk from rfl, hTold]
      rfl

end FieldScanner

/-! ## Assemblies -/

namespace Assembly

/-- An assembly tells the kinds that its scanner's strings name. -/
theorem pushAll_snd (a : Assembly) (chunks : List (List Char)) :
    (a.pushAll chunks).2 = (a.scanner.pushAll chunks).2.map fun told =>
      told.bind fun name => ReplyKind.ofName? (String.ofList name) := by
  induction chunks generalizing a with
  | nil => rfl
  | cons chunk rest ih =>
    rw [pushAll, FieldScanner.pushAll, List.map_cons]
    exact congrArg _ (ih (a.push chunk).1)

/-- The pushes of an assembly tell its kind, and tell it once. -/
theorem reduceOption_pushAll (chunks : List (List Char)) :
    (pushAll {} chunks).2.reduceOption = (pushAll {} chunks).1.kind.toList := by
  obtain ⟨hSame, hTold⟩ := kind_pushAll chunks {} rfl
  rw [Told, hSame] at hTold
  rw [hTold, pushAll_snd]
  change (List.map _ ((FieldScanner.ofKey "type").pushAll chunks).2).reduceOption =
    (((FieldScanner.ofKey "type").advance chunks.flatten).found.bind _).toList
  -- without a value no push tells anything, with one it is told by the push that ends it
  cases hFound : ((FieldScanner.ofKey "type").advance chunks.flatten).found with
  | none =>
    rw [FieldScanner.pushAll_snd_of_found_eq_none chunks hFound]
    simp
  | some value =>
    obtain ⟨front, back, hText, -, hOpen, hHere⟩ := FieldScanner.exists_value_of_found hFound
    obtain ⟨before, start, rest, after, -, -, hPushes⟩ :=
      FieldScanner.exists_telling_chunk hText hOpen hHere
    rw [hPushes]
    cases hKind : ReplyKind.ofName? (String.ofList value) with
    | none => simp [hKind, List.reduceOption_append, List.reduceOption_cons_of_none]
    | some kind => simp [hKind, List.reduceOption_append, List.reduceOption_cons_of_some]

/-- Two ways of cutting a text into chunks make no difference. The scanner of any field ends in the
same state. If it has found a string, the text goes on with a quote behind a front that ends inside
the field's string, and this quote is where the scanner finds it; the push of the chunk that holds
the quote tells the string, and no other push tells anything. An assembly tells the same kind, once
if at all, and has the same reply. -/
theorem same_of_flatten_eq (key : String) {chunks others : List (List Char)}
    (h : others.flatten = chunks.flatten) :
    (((FieldScanner.ofKey key).pushAll others).1.found =
        ((FieldScanner.ofKey key).pushAll chunks).1.found ∧
      (((FieldScanner.ofKey key).pushAll chunks).1.found = none →
        ((FieldScanner.ofKey key).pushAll chunks).2 = List.replicate chunks.length none) ∧
      ∀ value, ((FieldScanner.ofKey key).pushAll chunks).1.found = some value →
        ∃ before start rest after, chunks = before ++ (start ++ '"' :: rest) :: after ∧
          FieldScanner.EndsInValue key value (before.flatten ++ start) ∧
          ((FieldScanner.ofKey key).advance (before.flatten ++ start)).found = none ∧
          ((FieldScanner.ofKey key).advance (before.flatten ++ start ++ ['"'])).found =
            some value ∧
          ((FieldScanner.ofKey key).pushAll chunks).2 =
            List.replicate before.length none ++ some value ::
              List.replicate after.length none) ∧
    (pushAll {} others).1.kind = (pushAll {} chunks).1.kind ∧
      (pushAll {} others).1.finish = (pushAll {} chunks).1.finish ∧
      (pushAll {} chunks).2.reduceOption = (pushAll {} chunks).1.kind.toList := by
  have hScanner (chunks : List (List Char)) := (FieldScanner.ofKey key).pushAll_fst chunks
  refine ⟨⟨?_, fun hNone => ?_, fun value hFound => ?_⟩, ?_, ?_, ?_⟩
  · rw [hScanner, hScanner, h]
  · rw [hScanner] at hNone
    exact FieldScanner.pushAll_snd_of_found_eq_none chunks hNone
  · rw [hScanner] at hFound
    obtain ⟨front, back, hText, hEnds, hOpen, hHere⟩ := FieldScanner.exists_value_of_found hFound
    obtain ⟨before, start, rest, after, hChunks, rfl, hTold⟩ :=
      FieldScanner.exists_telling_chunk hText hOpen hHere
    exact ⟨before, start, rest, after, hChunks, hEnds, FieldScanner.found_eq_none hOpen, hHere,
      hTold⟩
  · -- both assemblies ask a scanner that has gone over the same text
    obtain ⟨hSame, hTold⟩ := kind_pushAll chunks {} rfl
    obtain ⟨hSame', hTold'⟩ := kind_pushAll others {} rfl
    rw [Told] at hTold hTold'
    rw [hTold, hTold', hSame, hSame', h]
  · rw [finish, finish, pushAll_text, pushAll_text, h]
  · exact reduceOption_pushAll chunks

/-- A reply in one piece, against the same reply cut behind a backslash in its type. -/
theorem same_of_flatten_eq_escaped : ∃ whole cut : List (List Char),
    whole = ["\x7b\"type\": \"ed\\it\", \"changes\": []\x7d".toList] ∧
      cut = ["\x7b\"type\": \"ed\\".toList, "".toList, "it\", \"changes\": []\x7d".toList] ∧
      whole.flatten = cut.flatten ∧
      ((FieldScanner.ofKey "type").pushAll cut).1.found = some "edit".toList ∧
      ((FieldScanner.ofKey "type").pushAll whole).1.found = some "edit".toList ∧
      (∃ before start rest after, cut = before ++ (start ++ '"' :: rest) :: after ∧
        FieldScanner.EndsInValue "type" "edit".toList (before.flatten ++ start)) ∧
      (pushAll {} whole).1.kind = some .edit ∧ (pushAll {} cut).2.reduceOption = [.edit] := by
  obtain ⟨whole, hWhole⟩ : ∃ whole : List (List Char),
      whole = ["\x7b\"type\": \"ed\\it\", \"changes\": []\x7d".toList] := ⟨_, rfl⟩
  obtain ⟨cut, hCut⟩ : ∃ cut : List (List Char),
      cut = ["\x7b\"type\": \"ed\\".toList, "".toList, "it\", \"changes\": []\x7d".toList] :=
    ⟨_, rfl⟩
  have hText : whole.flatten = cut.flatten := by
    rw [hWhole, hCut]
    decide
  have hFound : ((FieldScanner.ofKey "type").pushAll cut).1.found = some "edit".toList := by
    rw [hCut]
    rfl
  have hKind : (pushAll {} cut).1.kind = some .edit := by
    rw [hCut]
    rfl
  obtain ⟨⟨hSame, -, hPush⟩, hKinds, -, hOnce⟩ := same_of_flatten_eq "type" hText
  obtain ⟨before, start, rest, after, hChunks, hEnds, -⟩ := hPush _ hFound
  exact ⟨whole, cut, hWhole, hCut, hText, hFound, hSame.trans hFound,
    ⟨before, start, rest, after, hChunks, hEnds⟩, hKinds.trans hKind, by rw [hOnce, hKind]; rfl⟩

end Assembly

end Onboarding
