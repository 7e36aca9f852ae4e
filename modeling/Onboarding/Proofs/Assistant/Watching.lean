import Onboarding.Assistant.FieldScanner
import Onboarding.Proofs.Assistant.Scanning

/-!
# Onboarding — what a field scanner sees of a written object

A field scanner goes over a written value with its own, looser idea of a string:
it takes the character behind a backslash for itself (`FieldScanner.reading`).
Structure it follows as the grammar does, so below the watched object it is left
as it was by every value (`FieldScanner.advance_value`), and in the object it
stops at the first member whose key it reads as the field's name and whose value
is a string.

## Results

* `FieldScanner.advance_string` — a literal as the scanner takes it.
* `FieldScanner.advance_value` — a value that is not the watched one is passed over.
* `FieldScanner.exists_found` — the first string under a key that is read as the
  field's name is found with its closing quote.
-/

namespace Onboarding

open Json

/-- The string that a value is. -/
def Json.Written.string? : Written → Option StringText
  | .string t => some t
  | _ => none

/-- The keys of members and their values, in turn. -/
def Json.WrittenMembers.toList : WrittenMembers → List (StringText × Written)
  | .nil => []
  | .cons _ _ key _ _ value rest => (key, value) :: rest.toList

namespace FieldScanner

/-- The inside of a literal as the scanner takes it: without the backslashes, and with every
character behind one as it stands. -/
def reading (escaped : Bool) : List Char → List Char
  | [] => []
  | c :: rest =>
    if escaped then c :: reading false rest
    else if c = '\\' then reading true rest
    else c :: reading false rest

/-- The string that the scanner takes from a member: the value under a key that it reads as the
field's name. -/
def memberString? (key : List Char) (name : StringText) (value : Written) : Option (List Char) :=
  if reading false name.body = key then value.string?.map fun t => reading false t.body else none

/-- What the scanner takes for the value of a field: the string of the first member that has one. -/
def watched? (key : List Char) (members : WrittenMembers) : Option (List Char) :=
  members.toList.findSome? fun member => memberString? key member.1 member.2

/-- A member gives a string if its key reads as the field's name and its value is a string. -/
theorem memberString?_eq_some {key v : List Char} {name : StringText} {value : Written} :
    memberString? key name value = some v ↔
      reading false name.body = key ∧ ∃ t, value = .string t ∧ reading false t.body = v := by
  rw [memberString?]
  cases value <;> simp [Written.string?]

/-- A member gives none if its key reads otherwise or its value is no string. -/
theorem memberString?_eq_none {key : List Char} {name : StringText} {value : Written} :
    memberString? key name value = none ↔
      (reading false name.body = key → value.string? = none) := by
  simp [memberString?]

/-! ## Characters -/

/-- The scanner is outside of literals and still looks for the field. -/
structure Looks (s : FieldScanner) : Prop where
  literal : s.literal = none
  hasEnded : s.hasEnded = false
  found : s.found = none

/-- The state behind a value that is not the watched one. -/
def passed (s : FieldScanner) : FieldScanner :=
  { s with place := if s.depth = 1 then .afterValue else s.place }

section Characters

variable {s : FieldScanner} {c : Char}

/-- A scanner that still looks is not settled. -/
theorem Looks.isSettled (h : Looks s) : s.isSettled = false := by
  simp [FieldScanner.isSettled, h.hasEnded, h.found]

/-- As long as it is not settled, a scanner goes on character by character. -/
theorem advance_cons (h : s.isSettled = false) (c : Char) (t : List Char) :
    s.advance (c :: t) = (s.step c).advance t := by
  rw [advance, h]
  rfl

/-- Inside of an object and outside of literals a character counts for what it is. -/
theorem step_of_looks (h : Looks s) (hDepth : s.depth ≠ 0) (c : Char) :
    s.step c = s.stepObject c := by
  rw [step, if_neg hDepth, h.literal]

/-- A value that is passed over does not end the search. -/
theorem Looks.passed (h : Looks s) : Looks s.passed := ⟨h.literal, h.hasEnded, h.found⟩

/-- Below the members of the watched object no places are kept. -/
theorem passed_of_deep (hDepth : 2 ≤ s.depth) : s.passed = s := by
  rw [FieldScanner.passed, if_neg (by omega)]

/-- A character that opens and closes nothing. -/
theorem stepObject_of_deep (hDepth : 2 ≤ s.depth) (hQuote : c ≠ '"') (hObject : c ≠ '{')
    (hArray : c ≠ '[') (hEnd : c ≠ '}') (hLast : c ≠ ']') : s.stepObject c = s := by
  have hNe : s.depth ≠ 1 := by omega
  simp [stepObject, hQuote, hObject, hArray, hEnd, hLast, hNe]

/-- Blanks are passed over. -/
theorem stepObject_isSpace (hSpace : isSpace c = true) : s.stepObject c = s := by
  have hBlank := Repair.isBlank_of_isSpace hSpace
  simp only [isSpace, Bool.or_eq_true, beq_iff_eq] at hSpace
  rcases hSpace with ((rfl | rfl) | rfl) | rfl <;> simp [stepObject, hBlank]

/-- A character of a token can only pass over a value. -/
theorem stepObject_isTokenChar (h : Repair.isTokenChar c = true)
    (hPlace : s.depth = 1 → s.place = .value ∨ s.place = .afterValue) :
    s.stepObject c = s.passed := by
  simp only [Repair.isTokenChar, Repair.isBreak, Bool.and_eq_true, Bool.not_eq_true',
    Bool.or_eq_false_iff, beq_eq_false_iff_ne, bne_iff_ne] at h
  -- only in the watched object is there a place to be kept
  by_cases hDepth : s.depth = 1
  · rcases hPlace hDepth with hPlace | hPlace
    · simp [stepObject, passed, h, hDepth, hPlace]
    · have hPassed : s.passed = s := by rw [passed, if_pos hDepth, ← hPlace]
      rw [hPassed]
      simp [stepObject, h, hPlace]
  · simp [stepObject, passed, h, hDepth]

/-- Before the first brace nothing is looked at. -/
theorem advance_front {front : List Char} (h : s.isSettled = false) (hDepth : s.depth = 0)
    (hFront : '{' ∉ front) (rest : List Char) : s.advance (front ++ rest) = s.advance rest := by
  induction front with
  | nil => rfl
  | cons c front ih =>
    rw [List.mem_cons, not_or] at hFront
    have hStep : s.step c = s := by
      rw [step, if_pos hDepth, if_neg (fun hc => hFront.1 hc.symm)]
    rw [List.cons_append, advance_cons h, hStep, ih hFront.2]

/-- Blanks between tokens are passed over. -/
theorem advance_gap (h : Looks s) (hDepth : s.depth ≠ 0) (gap : Gap) (rest : List Char) :
    s.advance (gap.1 ++ rest) = s.advance rest := by
  obtain ⟨blanks, hBlanks⟩ := gap
  induction blanks with
  | nil => rfl
  | cons c blanks ih =>
    have hStep : s.step c = s :=
      (step_of_looks h hDepth c).trans (stepObject_isSpace (hBlanks c List.mem_cons_self))
    rw [List.cons_append, advance_cons h.isSettled, hStep]
    exact ih fun d hd => hBlanks d (List.mem_cons_of_mem _ hd)

end Characters

/-! ## Tokens and literals -/

section Tokens

variable {s : FieldScanner}

/-- A name or a numeral is passed over. -/
theorem advance_token {t : List Char} (h : Looks s) (hDepth : s.depth ≠ 0)
    (hPlace : s.depth = 1 → s.place = .value ∨ s.place = .afterValue) (hNonempty : t ≠ [])
    (hToken : ∀ c ∈ t, Repair.isTokenChar c = true) (rest : List Char) :
    s.advance (t ++ rest) = s.passed.advance rest := by
  -- the state is general, since the first character passes the whole value
  induction t generalizing s with
  | nil => exact absurd rfl hNonempty
  | cons c t ih =>
    have hStep : s.step c = s.passed := (step_of_looks h hDepth c).trans
      (stepObject_isTokenChar (hToken c List.mem_cons_self) hPlace)
    rw [List.cons_append, advance_cons h.isSettled, hStep]
    cases t with
    | nil => rfl
    | cons d t =>
      -- the rest of the token stands behind a value that is already passed
      have hTwice : s.passed.passed = s.passed := by
        simp only [passed]
        split <;> rfl
      have hAfter : s.passed.depth = 1 → s.passed.place = .value ∨ s.passed.place = .afterValue :=
        fun hOne => .inr (if_pos hOne)
      rw [ih h.passed hDepth hAfter (by simp) fun e he => hToken e (List.mem_cons_of_mem _ he),
        hTwice]

/-- The scanner inside a literal. -/
def inside (s : FieldScanner) (captured : Option (List Char)) (escaped : Bool) : FieldScanner :=
  { s with literal := some { captured, escaped } }

/-- Inside a literal a backslash is dropped and every other character is taken. -/
theorem step_literal {state next : List Piece × Escape} {c : Char}
    (hStep : literalStep state c = some next) (hDepth : s.depth ≠ 0)
    (captured : Option (List Char)) :
    (s.inside captured (decide (state.2 = .started))).step c =
      s.inside (captured.map ((reading (decide (state.2 = .started)) [c]).reverse ++ ·))
        (decide (next.2 = .started)) := by
  cases literalStep_cases hStep with
  | char hQuote hBack => simp [step, inside, hDepth, stepLiteral, reading, hQuote, hBack]
  | backslash => simp [step, inside, hDepth, stepLiteral, reading]
  | unit => simp [step, inside, hDepth, stepLiteral, reading]
  | escaped => simp [step, inside, hDepth, stepLiteral, reading]
  | digit hDigit => simp [step, inside, hDepth, stepLiteral, reading, ne_of_hexDigit? hDigit]
  | lastDigit hDigit => simp [step, inside, hDepth, stepLiteral, reading, ne_of_hexDigit? hDigit]

/-- A literal is read character by character, with what is known of the backslash before. -/
theorem reading_cons {state next : List Piece × Escape} {c : Char}
    (hStep : literalStep state c = some next) (body : List Char) :
    reading (decide (state.2 = .started)) (c :: body) =
      reading (decide (state.2 = .started)) [c] ++ reading (decide (next.2 = .started)) body := by
  cases literalStep_cases hStep with
  | char hQuote hBack => simp [reading, hBack]
  | backslash => simp [reading]
  | unit => simp [reading]
  | escaped => simp [reading]
  | digit hDigit => simp [reading, ne_of_hexDigit? hDigit]
  | lastDigit hDigit => simp [reading, ne_of_hexDigit? hDigit]

/-- The inside of a literal is taken as the scanner reads it. -/
theorem advance_body {state last : List Piece × Escape} {body : List Char}
    (hScan : scanLiteral state body = some last) (h : s.isSettled = false) (hDepth : s.depth ≠ 0)
    (captured : Option (List Char)) (rest : List Char) :
    (s.inside captured (decide (state.2 = .started))).advance (body ++ rest) =
      (s.inside (captured.map ((reading (decide (state.2 = .started)) body).reverse ++ ·))
        (decide (last.2 = .started))).advance rest := by
  -- the scanner's escape flag follows the reader's, and what it captures stands reversed
  induction body generalizing state captured with
  | nil =>
    rw [scanLiteral, List.foldlM_nil] at hScan
    cases hScan
    simp [reading]
  | cons c body ih =>
    rw [scanLiteral, List.foldlM_cons, Option.bind_eq_bind, Option.bind_eq_some_iff] at hScan
    obtain ⟨next, hNext, hScan⟩ := hScan
    have hInside : (s.inside captured (decide (state.2 = .started))).isSettled = false := h
    rw [List.cons_append, advance_cons hInside, step_literal hNext hDepth, ih hScan,
      reading_cons hNext body, Option.map_map]
    simp [Function.comp_def]

/-- A literal is opened, its inside is taken, and it is closed. -/
theorem advance_literal (h : Looks s) (hDepth : s.depth ≠ 0) {opened : FieldScanner}
    {captured : Option (List Char)} (hOpen : s.openLiteral = opened.inside captured false)
    (t : StringText) (rest : List Char) :
    s.advance (t.text ++ rest) =
      (opened.closeLiteral ⟨captured.map ((reading false t.body).reverse ++ ·), false⟩).advance
        rest := by
  obtain ⟨pieces, hScan, -⟩ := t.exists_pieces
  -- opening the literal changes neither the depth nor what was found
  have hSame : opened.depth = s.depth ∧ opened.isSettled = s.isSettled := by
    have hDepth := congrArg FieldScanner.depth hOpen
    have hSettled := congrArg FieldScanner.isSettled hOpen
    exact ⟨hDepth.symm, hSettled.symm⟩
  have hSettled : opened.isSettled = false := hSame.2.trans h.isSettled
  have hOpened : opened.depth ≠ 0 := hSame.1 ▸ hDepth
  have hBody := advance_body hScan hSettled hOpened captured ('"' :: rest)
  simp only [reduceCtorEq, decide_false] at hBody
  -- the quotes around the inside open and close the literal
  have hQuote : s.step '"' = opened.inside captured false := by
    rw [step_of_looks h hDepth, ← hOpen]
    rfl
  have hClose (captured : Option (List Char)) : (opened.inside captured false).step '"' =
      opened.closeLiteral ⟨captured, false⟩ := by
    rw [step, if_neg (by exact hOpened)]
    rfl
  rw [StringText.text, List.cons_append, List.append_assoc, List.singleton_append,
    advance_cons h.isSettled, hQuote, hBody,
    advance_cons (s := opened.inside _ false) hSettled, hClose]

/-- A key tells whether the field is watched. -/
theorem advance_key (h : Looks s) (hDepth : s.depth = 1) (hPlace : s.place = .key)
    (t : StringText) (rest : List Char) :
    s.advance (t.text ++ rest) =
      ({ s with isWatched := reading false t.body = s.key, place := .colon } :
        FieldScanner).advance rest := by
  have hOpen : s.openLiteral = s.inside (some []) false := by
    simp [openLiteral, inside, hDepth, hPlace]
  rw [advance_literal h (by omega) hOpen]
  simp [closeLiteral, hPlace, ← h.literal]

/-- The string of the watched field is found with its closing quote. -/
theorem advance_watched (h : Looks s) (hDepth : s.depth = 1) (hPlace : s.place = .value)
    (hWatched : s.isWatched = true) (t : StringText) (rest : List Char) :
    (s.advance (t.text ++ rest)).found = some (reading false t.body) := by
  have hOpen : s.openLiteral = s.inside (some []) false := by
    simp [openLiteral, inside, hDepth, hPlace, hWatched]
  have hClose : s.closeLiteral ⟨some (reading false t.body).reverse, false⟩ =
      { s with place := .afterValue, found := some (reading false t.body) } := by
    simp [closeLiteral, hPlace, hWatched, h.found, ← h.literal]
  -- a scanner that has found its string is settled, so the rest does not matter
  rw [advance_literal h (by omega) hOpen, Option.map_some, List.append_nil, hClose,
    advance_of_isSettled (by simp [isSettled])]

/-- A string that is not watched is passed over. -/
theorem advance_string (h : Looks s) (hDepth : s.depth ≠ 0)
    (hPlace : s.depth = 1 → s.place = .value ∧ s.isWatched = false) (t : StringText)
    (rest : List Char) : s.advance (t.text ++ rest) = s.passed.advance rest := by
  -- nothing of it is captured, and its place is passed as soon as it is opened
  have hOpen : s.openLiteral = s.passed.inside none false := by
    by_cases hOne : s.depth = 1
    · simp [openLiteral, inside, passed, hOne, hPlace hOne]
    · simp [openLiteral, inside, passed, hOne]
  rw [advance_literal h hDepth hOpen]
  simp [closeLiteral, passed, ← h.literal]

end Tokens

/-! ## What literals say -/

/-- The character of an escape with one letter is that letter or a control character. -/
theorem eq_or_control_of_escaped? {c e : Char} (h : escaped? c = some e) :
    e = c ∨ e.toNat < 0x20 := by
  unfold escaped? at h
  split at h <;> simp only [Option.some.injEq, reduceCtorEq] at h <;> subst h <;> decide

/-- A literal that the scanner takes without a `u` has no escapes of units. Its characters are those
taken, unless one of them is a control character. -/
theorem exists_chars {state last : List Piece × Escape} {body : List Char}
    (hScan : scanLiteral state body = some last) (hState : state.2 = .none ∨ state.2 = .started)
    (hUnit : 'u' ∉ reading (decide (state.2 = .started)) body) :
    ∃ cs : List Char, last.1 = (cs.map Piece.char).reverse ++ state.1 ∧
      ((∀ c ∈ cs, 0x20 ≤ c.toNat) → reading (decide (state.2 = .started)) body = cs) := by
  induction body generalizing state with
  | nil =>
    rw [scanLiteral, List.foldlM_nil] at hScan
    cases hScan
    exact ⟨[], by simp, fun _ => rfl⟩
  | cons c body ih =>
    rw [scanLiteral, List.foldlM_cons, Option.bind_eq_bind, Option.bind_eq_some_iff] at hScan
    obtain ⟨next, hNext, hScan⟩ := hScan
    rw [reading_cons hNext body] at hUnit ⊢
    rw [List.mem_append, not_or] at hUnit
    cases literalStep_cases hNext with
    | char hQuote hBack =>
      obtain ⟨cs, hLast, hChars⟩ := ih hScan (.inl rfl) hUnit.2
      refine ⟨c :: cs, by simp [hLast], fun hControl => ?_⟩
      rw [hChars (List.forall_mem_cons.mp hControl).2]
      simp [reading, hBack]
    | backslash =>
      obtain ⟨cs, hLast, hChars⟩ := ih hScan (.inr rfl) hUnit.2
      refine ⟨cs, hLast, fun hControl => ?_⟩
      rw [hChars hControl]
      simp [reading]
    | unit =>
      -- the scanner drops the backslash of the unit and takes its `u`
      exact absurd (by simp [reading]) hUnit.1
    | @escaped pieces _ e hNe hEscaped =>
      obtain ⟨cs, hLast, hChars⟩ := ih hScan (.inl rfl) hUnit.2
      refine ⟨e :: cs, by simp [hLast], fun hControl => ?_⟩
      obtain ⟨hHead, hTail⟩ := List.forall_mem_cons.mp hControl
      rw [hChars hTail]
      -- what is escaped with a letter and is not that letter is a control character
      rcases eq_or_control_of_escaped? hEscaped with rfl | hLow
      · simp [reading]
      · exact absurd hHead (by omega)
    -- no digits of a unit without its `u` before them
    | digit => simp at hState
    | lastDigit => simp at hState

/-- Pieces that are characters say these characters. -/
theorem charsOf?_map_char (cs : List Char) : charsOf? (cs.map Piece.char) = some cs := by
  induction cs with
  | nil => rfl
  | cons c cs ih => rw [List.map_cons, charsOf?, ih, Option.map_some]

/-- A literal that the scanner takes without a `u` and that says no control character says what the
scanner takes. -/
theorem reading_eq_value {t : StringText} (hUnit : 'u' ∉ reading false t.body)
    (hControl : ∀ c ∈ t.value.toList, 0x20 ≤ c.toNat) : reading false t.body = t.value.toList := by
  obtain ⟨pieces, hScan, hValue⟩ := t.exists_pieces
  obtain ⟨cs, rfl, hChars⟩ := exists_chars hScan (.inl rfl) hUnit
  rw [List.append_nil, Reader.stringOf?, List.reverse_reverse, charsOf?_map_char, Option.map_some,
    Option.some.injEq] at hValue
  rw [← hValue, String.toList_ofList] at hControl ⊢
  exact hChars hControl

/-- Without a backslash every piece of a literal is a character. -/
theorem pieces_of_plain {body : List Char} (hPlain : '\\' ∉ body) {pieces : List Piece}
    {last : List Piece × Escape} (hScan : scanLiteral (pieces, .none) body = some last) :
    last.1 = ((reading false body).map Piece.char).reverse ++ pieces := by
  induction body generalizing pieces with
  | nil =>
    rw [scanLiteral, List.foldlM_nil] at hScan
    cases hScan
    rfl
  | cons c body ih =>
    rw [List.mem_cons, not_or] at hPlain
    rw [scanLiteral, List.foldlM_cons, Option.bind_eq_bind, Option.bind_eq_some_iff] at hScan
    obtain ⟨next, hNext, hScan⟩ := hScan
    -- without a backslash the only steps are those of plain characters
    cases literalStep_cases hNext with
    | char hQuote hBack =>
      rw [ih hPlain.2 hScan]
      simp [reading, hBack]
    | backslash => exact absurd rfl hPlain.1

/-- A literal without a backslash says what the scanner takes. -/
theorem reading_of_plain {t : StringText} (hPlain : '\\' ∉ t.body) :
    reading false t.body = t.value.toList := by
  obtain ⟨pieces, hScan, hValue⟩ := t.exists_pieces
  obtain rfl := pieces_of_plain hPlain hScan
  rw [List.append_nil, Reader.stringOf?, List.reverse_reverse, charsOf?_map_char, Option.map_some,
    Option.some.injEq] at hValue
  rw [← hValue, String.toList_ofList]

/-! ## Values that are passed over -/

section Values

variable {s : FieldScanner}

/-- A container is passed over if what it holds is. -/
theorem advance_container (h : Looks s) (hDepth : s.depth ≠ 0) {opening closing : Char}
    (hOpening : opening = '{' ∨ opening = '[') (hClosing : closing = '}' ∨ closing = ']')
    {inner : List Char}
    (hInner : ∀ {s : FieldScanner} (rest : List Char), Looks s → 2 ≤ s.depth →
      s.advance (inner ++ rest) = s.advance rest) (rest : List Char) :
    s.advance (opening :: (inner ++ [closing]) ++ rest) = s.passed.advance rest := by
  -- the brackets lead one level down, where the place is not touched, and back
  have hOpened : Looks { s.passed with depth := s.depth + 1 } := ⟨h.literal, h.hasEnded, h.found⟩
  have hOpen : s.step opening = { s.passed with depth := s.depth + 1 } := by
    rw [step_of_looks h hDepth]
    rcases hOpening with rfl | rfl <;> simp [stepObject, passed]
  have hClose :
      ({ s.passed with depth := s.depth + 1 } : FieldScanner).step closing = s.passed := by
    rw [step_of_looks hOpened (Nat.succ_ne_zero _)]
    rcases hClosing with rfl | rfl <;> simp [stepObject, passed, hDepth, ← h.hasEnded]
  have hTwo : 2 ≤ ({ s.passed with depth := s.depth + 1 } : FieldScanner).depth := by
    show 2 ≤ s.depth + 1
    omega
  rw [List.cons_append, List.append_assoc, List.singleton_append, advance_cons h.isSettled, hOpen,
    hInner _ hOpened hTwo, advance_cons hOpened.isSettled, hClose]

/-- Below the watched object a comma or a colon is passed over. -/
theorem advance_mark (h : Looks s) (hDepth : 2 ≤ s.depth) {c : Char} (hMark : c = ',' ∨ c = ':')
    (rest : List Char) : s.advance (c :: rest) = s.advance rest := by
  have hStep : s.step c = s := by
    rw [step_of_looks h (by omega)]
    rcases hMark with rfl | rfl <;>
      exact stepObject_of_deep hDepth (by decide) (by decide) (by decide) (by decide) (by decide)
  rw [advance_cons h.isSettled, hStep]

/-- What stands before an item inside is passed over. -/
theorem advance_itemLead (h : Looks s) (hDepth : 2 ≤ s.depth) (first : Bool) (outer inner : Gap)
    (rest : List Char) : s.advance (itemLead first outer inner ++ rest) = s.advance rest := by
  have hComma (rest : List Char) : s.advance (comma first ++ rest) = s.advance rest := by
    cases first with
    | true => rfl
    | false => exact advance_mark h hDepth (.inl rfl) rest
  rw [itemLead, List.append_assoc, List.append_assoc, advance_gap h (by omega), hComma,
    advance_gap h (by omega)]

theorem advance_memberLead (h : Looks s) (hDepth : 2 ≤ s.depth) (first : Bool) (outer inner : Gap)
    (key : StringText) (before after : Gap) (rest : List Char) :
    s.advance (memberLead first outer inner key before after ++ rest) = s.advance rest := by
  have hKey (rest : List Char) : s.advance (key.text ++ rest) = s.advance rest := by
    have hString := advance_string h (by omega) (fun hOne => by omega) key rest
    rwa [passed_of_deep hDepth] at hString
  rw [memberLead, List.append_assoc, List.append_assoc, List.append_assoc,
    advance_itemLead h hDepth, hKey, advance_gap h (by omega), List.cons_append,
    advance_mark h hDepth (.inr rfl), advance_gap h (by omega)]

mutual

-- by induction on what is written: in a container the scanner is below the watched object, where
-- no place is kept, so that items and members in turn leave it as it was

/-- A value that is not the watched one is passed over. -/
theorem advance_value : ∀ (w : Written) {s : FieldScanner} (rest : List Char), Looks s →
    s.depth ≠ 0 →
    (s.depth = 1 → s.place = .value ∧ (s.isWatched = true → w.string? = none)) →
    s.advance (w.text ++ rest) = s.passed.advance rest
  | .name n, s, rest, h, hDepth, hPlace =>
    advance_token h hDepth (fun hOne => .inl (hPlace hOne).1) (by cases n <;> decide)
      (fun c hc => Repair.isTokenChar_of_mem_name hc) rest
  | .numeral t, s, rest, h, hDepth, hPlace => by
    obtain ⟨c, tail, first, part, hText, hFirst, hScan, -⟩ := t.exists_part
    have hToken : ∀ d ∈ t.text, Repair.isTokenChar d = true := by
      rw [hText]
      exact List.forall_mem_cons.mpr
        ⟨Repair.isTokenChar_of_isNumeralChar (isNumeralChar_of_first? hFirst),
          fun d hd => Repair.isTokenChar_of_isNumeralChar (isNumeralChar_of_scan hScan d hd)⟩
    exact advance_token h hDepth (fun hOne => .inl (hPlace hOne).1) (by simp [hText]) hToken rest
  | .string t, s, rest, h, hDepth, hPlace => by
    -- the value of the watched key is no string here, and this value is one
    have hOther : s.depth = 1 → s.place = .value ∧ s.isWatched = false := by
      intro hOne
      obtain ⟨hValue, hString⟩ := hPlace hOne
      refine ⟨hValue, ?_⟩
      rw [← Bool.not_eq_true]
      intro hWatched
      simpa [Written.string?] using hString hWatched
    exact advance_string h hDepth hOther t rest
  | .array items gap, s, rest, h, hDepth, _ => by
    rw [Written.text]
    refine advance_container h hDepth (.inr rfl) (.inr rfl) (fun rest h hDeep => ?_) rest
    rw [List.append_assoc, advance_items items true _ h hDeep, advance_gap h (by omega)]
  | .object members gap, s, rest, h, hDepth, _ => by
    rw [Written.text]
    refine advance_container h hDepth (.inl rfl) (.inl rfl) (fun rest h hDeep => ?_) rest
    rw [List.append_assoc, advance_members members true _ h hDeep, advance_gap h (by omega)]

/-- Items inside are passed over. -/
theorem advance_items : ∀ (items : WrittenItems) (first : Bool) {s : FieldScanner}
    (rest : List Char), Looks s → 2 ≤ s.depth →
    s.advance (items.text first ++ rest) = s.advance rest
  | .nil, _, _, _, _, _ => rfl
  | .cons outer inner value tail, first, s, rest, h, hDeep => by
    have hValue := advance_value value (tail.text false ++ rest) h (by omega)
      (fun hOne => by omega)
    rw [passed_of_deep hDeep] at hValue
    rw [WrittenItems.text, List.append_assoc, List.append_assoc, advance_itemLead h hDeep, hValue,
      advance_items tail false rest h hDeep]

/-- Members inside are passed over. -/
theorem advance_members : ∀ (members : WrittenMembers) (first : Bool) {s : FieldScanner}
    (rest : List Char), Looks s → 2 ≤ s.depth →
    s.advance (members.text first ++ rest) = s.advance rest
  | .nil, _, _, _, _, _ => rfl
  | .cons outer inner key before after value tail, first, s, rest, h, hDeep => by
    have hValue := advance_value value (tail.text false ++ rest) h (by omega)
      (fun hOne => by omega)
    rw [passed_of_deep hDeep] at hValue
    rw [WrittenMembers.text, List.append_assoc, List.append_assoc, advance_memberLead h hDeep,
      hValue, advance_members tail false rest h hDeep]

end

end Values

/-! ## The watched object -/

/-- The scanner is in the watched object, before a member or the end of the object. -/
structure AtMember (s : FieldScanner) (first : Bool) : Prop where
  looks : Looks s
  depth : s.depth = 1
  place : first = true → s.place = .key

/-- The state before the value of a member. -/
def keyed (s : FieldScanner) (key : StringText) : FieldScanner :=
  { s with place := .value, isWatched := reading false key.body = s.key }

/-- What stands before the value of a member leaves the scanner with its key. -/
theorem AtMember.advance_lead {s : FieldScanner} {first : Bool} (h : AtMember s first)
    (outer inner : Gap) (key : StringText) (before after : Gap) (rest : List Char) :
    s.advance (memberLead first outer inner key before after ++ rest) =
      (s.keyed key).advance rest := by
  obtain ⟨hLooks, hDepth, hFirst⟩ := h
  have hAt (s' : FieldScanner) (hs' : Looks s') (hOne : s'.depth = 1) (gap : Gap)
      (rest : List Char) : s'.advance (gap.1 ++ rest) = s'.advance rest :=
    advance_gap hs' (by omega) gap rest
  have hKeyLooks : Looks { s with place := .key } := ⟨hLooks.literal, hLooks.hasEnded, hLooks.found⟩
  -- a comma makes the next literal a key; the first member stands behind the brace and needs none
  have hComma (rest : List Char) :
      s.advance (comma first ++ rest) = ({ s with place := .key } : FieldScanner).advance rest := by
    cases first with
    | true =>
      rw [← hFirst rfl]
      rfl
    | false =>
      have hStep : s.step ',' = { s with place := .key } := by
        rw [step_of_looks hLooks (by omega)]
        simp [stepObject, hDepth]
      rw [← hStep]
      exact advance_cons hLooks.isSettled ',' rest
  have hColonLooks :
      Looks { s with isWatched := reading false key.body = s.key, place := .colon } :=
    ⟨hLooks.literal, hLooks.hasEnded, hLooks.found⟩
  have hColon (rest : List Char) :
      ({ s with isWatched := reading false key.body = s.key, place := .colon } :
        FieldScanner).advance (':' :: rest) = (s.keyed key).advance rest := by
    rw [advance_cons hColonLooks.isSettled, step_of_looks hColonLooks (by simp [hDepth])]
    simp [stepObject, hDepth, keyed]
  have hValueLooks : Looks (s.keyed key) := ⟨hLooks.literal, hLooks.hasEnded, hLooks.found⟩
  rw [memberLead, itemLead]
  simp only [List.append_assoc, List.cons_append]
  rw [hAt s hLooks hDepth, hComma, hAt _ hKeyLooks hDepth, advance_key hKeyLooks hDepth rfl,
    hAt _ hColonLooks hDepth, hColon, hAt _ hValueLooks hDepth]

/-- The string under a key that is read as the field's name is found with its closing quote. -/
theorem AtMember.found {s : FieldScanner} {first : Bool} (h : AtMember s first) {key : StringText}
    (hKey : reading false key.body = s.key) (outer inner before after : Gap) (t : StringText) :
    (s.advance (memberLead first outer inner key before after ++ t.text)).found =
      some (reading false t.body) := by
  have hLooks : Looks (s.keyed key) := ⟨h.looks.literal, h.looks.hasEnded, h.looks.found⟩
  have hWatched : (s.keyed key).isWatched = true := decide_eq_true hKey
  have hFound := advance_watched hLooks h.depth rfl hWatched t []
  rw [List.append_nil] at hFound
  rw [h.advance_lead]
  exact hFound

/-- Any other member is passed over. -/
theorem AtMember.advance_other {s : FieldScanner} {first : Bool} (h : AtMember s first)
    {key : StringText} {value : Written}
    (hOther : reading false key.body = s.key → value.string? = none)
    (outer inner before after : Gap) (rest : List Char) :
    s.advance (memberLead first outer inner key before after ++ (value.text ++ rest)) =
        (s.keyed key).passed.advance rest ∧ AtMember (s.keyed key).passed false := by
  have hLooks : Looks (s.keyed key) := ⟨h.looks.literal, h.looks.hasEnded, h.looks.found⟩
  have hDepth : (s.keyed key).depth = 1 := h.depth
  rw [h.advance_lead, advance_value value rest hLooks (by omega)
    fun _ => ⟨rfl, fun hWatched => hOther (of_decide_eq_true hWatched)⟩]
  exact ⟨rfl, hLooks.passed, hDepth, by simp⟩

/-- The scanner finds the string of the first member that has one, at its last quote. -/
theorem exists_found_of_members {v : List Char} : ∀ (members : WrittenMembers) (first : Bool)
    {s : FieldScanner}, AtMember s first → watched? s.key members = some v →
    ∃ t u, members.text first = t ++ '"' :: u ∧ (s.advance (t ++ ['"'])).found = some v
  | .nil, _, s, _, hWatched => by simp [watched?, WrittenMembers.toList] at hWatched
  | .cons outer inner key before after value tail, first, s, h, hWatched => by
    rw [watched?, WrittenMembers.toList, List.findSome?_cons] at hWatched
    cases hMember : memberString? s.key key value with
    | some w =>
      -- the scanner stops in this member, at the quote that closes its string
      obtain ⟨hKey, t, rfl, hReading⟩ := memberString?_eq_some.mp hMember
      simp only [hMember, Option.some.injEq] at hWatched
      refine ⟨memberLead first outer inner key before after ++ '"' :: t.body, tail.text false,
        ?_, ?_⟩
      · simp [WrittenMembers.text, Written.text, StringText.text]
      · rw [← hWatched, ← hReading, List.append_assoc]
        exact h.found hKey outer inner before after t
    | none =>
      simp only [hMember] at hWatched
      -- the member is passed over, and a comma is needed before the next one
      have hNext := fun rest =>
        h.advance_other (memberString?_eq_none.mp hMember) outer inner before after rest
      obtain ⟨t, u, hText, hFound⟩ := exists_found_of_members tail false (hNext []).2 hWatched
      refine ⟨memberLead first outer inner key before after ++ value.text ++ t, u, ?_, ?_⟩
      · rw [WrittenMembers.text, hText]
        simp
      · rw [List.append_assoc, List.append_assoc, (hNext _).1]
        exact hFound

/-- The first string under a key that is read as the field's name is found with its closing
quote, whatever stands before the object. -/
theorem exists_found {members : WrittenMembers} (gap : Gap) {key : String} {v : List Char}
    (hWatched : watched? key.toList members = some v) :
    ∃ t u, (Written.object members gap).text = t ++ '"' :: u ∧
      ∀ front, '{' ∉ front → ((ofKey key).advance (front ++ (t ++ ['"']))).found = some v := by
  -- behind the opening brace the first member is next
  have hAt : AtMember { ofKey key with depth := 1 } true := ⟨⟨rfl, rfl, rfl⟩, rfl, fun _ => rfl⟩
  obtain ⟨t, u, hText, hFound⟩ := exists_found_of_members members true hAt hWatched
  refine ⟨'{' :: t, u ++ gap.1 ++ ['}'], ?_, fun front hFront => ?_⟩
  · rw [Written.text, hText]
    simp
  · rw [advance_front (by rfl) (by rfl) hFront, List.cons_append, advance_cons (by rfl)]
    exact hFound

end FieldScanner

end Onboarding
