import Onboarding.Proofs.Json.Written

/-!
# Onboarding — reading written values

What a reader makes of the rest of a text is its `result`. A reader that expects
a value and has the text of a written value before it gets to where it would be
had it completed what the value says. This is shown token by token: blanks,
names, numerals and literals first, then what stands before an item or a member,
and then by recursion on the value, its items and its members.

A numeral has no end of its own, so something that ends it must follow, or
nothing (`Ends`).

## Results

* `result_numeralText`, `result_stringText` — numerals and literals.
* `result_itemLead`, `result_memberLead` — what stands before a value.
* `Written.result_text` — a reader takes the text of a value for the value.
* `Page.read?_text` — the text of a page reads as what the page says.
-/

namespace Onboarding.Json

namespace Reader

/-- The document of the text so far and the rest of it. -/
def result (r : Reader) (s : List Char) : Option Document := (r.run s).bind finish

@[simp] theorem result_nil (r : Reader) : r.result [] = r.finish := rfl

@[simp] theorem result_cons (r : Reader) (c : Char) (s : List Char) :
    r.result (c :: s) = (r.step c).bind fun next => next.result s := by
  rw [result, run]
  cases r.step c <;> rfl

end Reader

/-! ## Tokens -/

section Tokens

variable {stack : List Frame} {rest : List Char}

/-- A reader passes over blanks where its phase allows them. -/
theorem result_gap {r : Reader} (hSpace : ∀ c, isSpace c = true → r.step c = some r) (gap : Gap)
    (s : List Char) : r.result (gap.1 ++ s) = r.result s := by
  obtain ⟨blanks, hBlanks⟩ := gap
  induction blanks with
  | nil => rfl
  | cons c blanks ih =>
    -- the reader is the same behind the first blank
    have hHead := hSpace c (hBlanks c List.mem_cons_self)
    have hTail := ih fun d hd => hBlanks d (List.mem_cons_of_mem _ hd)
    rw [List.cons_append, Reader.result_cons, hHead]
    exact hTail

/-- A reader that has just completed a value acts on the next character as one that had to see it
to know that the value was complete. -/
theorem step_complete (stack : List Frame) (v : Document) (c : Char) :
    (Reader.complete stack v).step c = (Reader.complete stack v).follow c := by
  cases stack with
  | nil => rfl
  | cons frame stack => cases frame <;> rfl

/-- A name is read as what it says. -/
theorem result_name (n : Name) :
    ({ stack, phase := .value } : Reader).result (n.text ++ rest) =
      (Reader.complete stack n.document).result rest := by
  cases n <;> simp [Name.text, Name.document, Reader.step, isSpace, Reader.begin]

/-- The first character of a numeral begins one. -/
theorem step_of_first? {c : Char} {part : Numeral.Part} (h : Numeral.Part.first? c = some part) :
    ({ stack, phase := .value } : Reader).step c = some { stack, phase := .numeral [c] part } := by
  have hNotSpace : isSpace c = false := by
    have hEnd := isEnd_eq_false_of_isNumeralChar (isNumeralChar_of_first? h)
    simp only [isEnd, Bool.or_eq_false_iff] at hEnd
    exact hEnd.1.1.1
  rw [Reader.step]
  simp only [hNotSpace, Bool.false_eq_true, if_false]
  -- no other token begins with a character of numerals
  unfold Reader.begin
  split
  all_goals first
    | rw [h]
      rfl
    | simp [Numeral.Part.first?] at h

/-- The characters of a numeral are collected, and with them the part that was reached. -/
theorem result_numeral {part last : Numeral.Part} {s : List Char}
    (hScan : scanNumeral part s = some last) (text : List Char) :
    ({ stack, phase := .numeral text part } : Reader).result (s ++ rest) =
      ({ stack, phase := .numeral (s.reverse ++ text) last } : Reader).result rest := by
  -- the reader follows the same automaton as the scan
  induction s generalizing part text with
  | nil =>
    rw [scanNumeral, List.foldlM_nil] at hScan
    cases hScan
    rfl
  | cons c s ih =>
    rw [scanNumeral, List.foldlM_cons, Option.bind_eq_bind, Option.bind_eq_some_iff] at hScan
    obtain ⟨next, hNext, hScan⟩ := hScan
    rw [List.cons_append, Reader.result_cons, Reader.step]
    simp only [hNext, Option.bind_some]
    rw [ih hScan, List.reverse_cons, List.append_assoc]
    rfl

/-- A complete numeral is a value as soon as something else follows, or nothing. -/
theorem result_numeral_end {part : Numeral.Part} (hComplete : part.isComplete = true)
    (text : List Char) (hEnds : Ends rest) :
    ({ stack, phase := .numeral text part } : Reader).result rest =
      (Reader.complete stack (Reader.numberOf text)).result rest := by
  cases rest with
  | nil =>
    rw [Reader.result_nil, Reader.result_nil, Reader.finish]
    cases stack with
    | nil => simp [hComplete, Reader.complete, Reader.finish]
    | cons frame stack => cases frame <;> simp [Reader.complete, Reader.finish]
  | cons c rest =>
    -- no part of a numeral goes on with what may follow it
    have hNext := next?_eq_none_of_isEnd (hEnds c (by simp)) part
    rw [Reader.result_cons, Reader.result_cons, step_complete, Reader.step]
    simp only [hNext, hComplete, if_true]

/-- A numeral is read as its number if what follows may end one. -/
theorem result_numeralText (t : NumeralText) (hEnds : Ends rest) :
    ({ stack, phase := .value } : Reader).result (t.text ++ rest) =
      (Reader.complete stack (.number t.value)).result rest := by
  obtain ⟨c, tail, first, last, hText, hFirst, hScan, hComplete, hValue⟩ := t.exists_part
  -- the reader holds the characters last first
  have hNumber : Reader.numberOf (tail.reverse ++ [c]) = .number t.value := by
    rw [Reader.numberOf, List.reverse_append, List.reverse_reverse, List.reverse_singleton,
      List.singleton_append, ← hText, hValue]
  rw [hText, List.cons_append, Reader.result_cons, step_of_first? hFirst, Option.bind_some,
    result_numeral hScan, result_numeral_end hComplete _ hEnds, hNumber]

/-- A character of a literal that does not end it changes nothing but the literal. -/
theorem inString_eq_map {s : List Piece × Escape} {c : Char} (hQuote : ¬ (s.2 = .none ∧ c = '"'))
    (stack : List Frame) (isKey : Bool) :
    Reader.inString stack isKey s.1 s.2 c = (literalStep s c).map fun next =>
      { stack, phase := .string isKey next.1 next.2 } := by
  obtain ⟨pieces, escape⟩ := s
  rw [literalStep, if_neg hQuote]
  -- both sides take the same branch of `Reader.inString`
  cases escape with
  | none =>
    have hNe : c ≠ '"' := fun hc => hQuote ⟨rfl, hc⟩
    by_cases hBack : c = '\\'
    · simp [Reader.inString, hBack]
    · by_cases hControl : c.toNat < 0x20 <;> simp [Reader.inString, hNe, hBack, hControl]
  | started =>
    by_cases hUnit : c = 'u'
    · simp [Reader.inString, hUnit]
    · cases hEscaped : escaped? c <;> simp [Reader.inString, hUnit, hEscaped]
  | hex digits value =>
    cases hDigit : hexDigit? c with
    | none => simp [Reader.inString, hDigit]
    | some n => by_cases hLast : digits = 3 <;> simp [Reader.inString, hDigit, hLast]

/-- A literal does not go on behind a quote that is not escaped. -/
theorem not_quote_of_literalStep {s next : List Piece × Escape} {c : Char}
    (h : literalStep s c = some next) : ¬ (s.2 = .none ∧ c = '"') := by
  intro hQuote
  rw [literalStep, if_pos hQuote] at h
  simp at h

/-- What a character inside a literal can be. -/
inductive LiteralStep : List Piece × Escape → Char → List Piece × Escape → Prop where
  | char {pieces : List Piece} {c : Char} (hQuote : c ≠ '"') (hBack : c ≠ '\\')
      (hControl : 0x20 ≤ c.toNat) : LiteralStep (pieces, .none) c (.char c :: pieces, .none)
  | backslash {pieces : List Piece} : LiteralStep (pieces, .none) '\\' (pieces, .started)
  | unit {pieces : List Piece} : LiteralStep (pieces, .started) 'u' (pieces, .hex 0 0)
  | escaped {pieces : List Piece} {c e : Char} (hUnit : c ≠ 'u') (hEscaped : escaped? c = some e) :
      LiteralStep (pieces, .started) c (.char e :: pieces, .none)
  | digit {pieces : List Piece} {digits value n : Nat} {c : Char} (hDigit : hexDigit? c = some n)
      (hMore : digits ≠ 3) : LiteralStep (pieces, .hex digits value) c
        (pieces, .hex (digits + 1) (value * 16 + n))
  | lastDigit {pieces : List Piece} {value n : Nat} {c : Char} (hDigit : hexDigit? c = some n) :
      LiteralStep (pieces, .hex 3 value) c (.unit (value * 16 + n) :: pieces, .none)

/-- What a character does inside a literal. -/
theorem literalStep_cases {s next : List Piece × Escape} {c : Char}
    (h : literalStep s c = some next) : LiteralStep s c next := by
  have hQuote := not_quote_of_literalStep h
  obtain ⟨pieces, escape⟩ := s
  rw [literalStep, if_neg hQuote] at h
  -- the case split of `Reader.inString`, with the branches that refuse `c` closed on the way
  cases escape with
  | none =>
    have hNe : c ≠ '"' := fun hc => hQuote ⟨rfl, hc⟩
    by_cases hBack : c = '\\'
    · simp [Reader.inString, hBack] at h
      subst hBack h
      exact .backslash
    · by_cases hControl : c.toNat < 0x20
      · simp [Reader.inString, hNe, hBack, hControl] at h
      · simp [Reader.inString, hNe, hBack, hControl] at h
        subst h
        exact .char hNe hBack (Nat.le_of_not_lt hControl)
  | started =>
    by_cases hUnit : c = 'u'
    · simp [Reader.inString, hUnit] at h
      subst hUnit h
      exact .unit
    · cases hEscaped : escaped? c with
      | none => simp [Reader.inString, hUnit, hEscaped] at h
      | some e =>
        simp [Reader.inString, hUnit, hEscaped] at h
        subst h
        exact .escaped hUnit hEscaped
  | hex digits value =>
    cases hDigit : hexDigit? c with
    | none => simp [Reader.inString, hDigit] at h
    | some n =>
      by_cases hLast : digits = 3
      · simp [Reader.inString, hDigit, hLast] at h
        subst hLast h
        exact .lastDigit hDigit
      · simp [Reader.inString, hDigit, hLast] at h
        subst h
        exact .digit hDigit hLast

/-- No digit of an escape ends or escapes anything. -/
theorem ne_of_hexDigit? {c : Char} {n : Nat} (h : hexDigit? c = some n) : c ≠ '"' ∧ c ≠ '\\' := by
  constructor <;> rintro rfl <;> simp [hexDigit?] at h

/-- The inside of a literal is collected piece by piece. -/
theorem result_literal {s last : List Piece × Escape} {body : List Char}
    (hScan : scanLiteral s body = some last) (isKey : Bool) :
    ({ stack, phase := .string isKey s.1 s.2 } : Reader).result (body ++ rest) =
      ({ stack, phase := .string isKey last.1 last.2 } : Reader).result rest := by
  -- the scan and the reader take the same step inside a string, whatever the stack
  induction body generalizing s with
  | nil =>
    rw [scanLiteral, List.foldlM_nil] at hScan
    cases hScan
    rfl
  | cons c body ih =>
    rw [scanLiteral, List.foldlM_cons, Option.bind_eq_bind, Option.bind_eq_some_iff] at hScan
    obtain ⟨next, hNext, hScan⟩ := hScan
    have hStep := inString_eq_map (not_quote_of_literalStep hNext) stack isKey
    rw [hNext, Option.map_some] at hStep
    rw [List.cons_append, Reader.result_cons, Reader.step]
    simp only [hStep, Option.bind_some]
    exact ih hScan

/-- A literal is read as its string. -/
theorem result_stringText (t : StringText) :
    ({ stack, phase := .value } : Reader).result (t.text ++ rest) =
      (Reader.complete stack (.string t.value)).result rest := by
  obtain ⟨pieces, hScan, hValue⟩ := t.exists_pieces
  have hOpen : ({ stack, phase := .value } : Reader).step '"' =
      some { stack, phase := .string false [] .none } := rfl
  rw [StringText.text, List.cons_append, List.append_assoc, Reader.result_cons, hOpen,
    Option.bind_some, result_literal hScan, List.singleton_append, Reader.result_cons]
  simp [Reader.step, Reader.inString, Reader.endString, hValue]

/-- A key is read and a colon awaited. -/
theorem result_key (t : StringText) (members : List (String × Document)) (key : String)
    (readable : Bool) :
    ({ stack := .object members key readable :: stack, phase := .string true [] .none } :
        Reader).result (t.body ++ '"' :: rest) =
      ({ stack := .object members t.value readable :: stack, phase := .colon } :
        Reader).result rest := by
  obtain ⟨pieces, hScan, hValue⟩ := t.exists_pieces
  rw [result_literal hScan, Reader.result_cons]
  simp [Reader.step, Reader.inString, Reader.endString, hValue]

end Tokens

/-! ## From written values to what they say -/

/-- Where the reader stands before an item or the end of an array. -/
def itemPhase (first : Bool) : Phase := if first then .firstItem else .separator

/-- Where the reader stands before a member or the end of an object. -/
def memberPhase (first : Bool) : Phase := if first then .firstKey else .separator

section Leads

variable {stack : List Frame}

/-- Blanks before an item or its comma are passed over. -/
theorem step_space_itemPhase (first : Bool) (c : Char) (h : isSpace c = true) :
    ({ stack, phase := itemPhase first } : Reader).step c =
      some { stack, phase := itemPhase first } := by
  cases first <;> simp [itemPhase, Reader.step, Reader.separate, h]

/-- Blanks before a member or its comma are passed over. -/
theorem step_space_memberPhase (first : Bool) (c : Char) (h : isSpace c = true) :
    ({ stack, phase := memberPhase first } : Reader).step c =
      some { stack, phase := memberPhase first } := by
  cases first <;> simp [memberPhase, Reader.step, Reader.separate, h]

theorem step_space_value (c : Char) (h : isSpace c = true) :
    ({ stack, phase := .value } : Reader).step c = some { stack, phase := .value } := by
  simp [Reader.step, h]

theorem step_space_key (c : Char) (h : isSpace c = true) :
    ({ stack, phase := .key } : Reader).step c = some { stack, phase := .key } := by
  simp [Reader.step, h]

theorem step_space_colon (c : Char) (h : isSpace c = true) :
    ({ stack, phase := .colon } : Reader).step c = some { stack, phase := .colon } := by
  simp [Reader.step, h]

/-- A closing bracket completes the items that were read. -/
theorem close_array (items : List Document) (hDepth : stack.length + 1 ≤ maxDepth) :
    Reader.close (.array items :: stack) ']' =
      some (Reader.complete stack (.array items.reverse)) := by
  have hShallow : ¬ maxDepth < stack.length + 1 := Nat.not_lt.mpr hDepth
  simp [Reader.close, hShallow]

/-- A closing brace completes the members that were read. -/
theorem close_object (members : List (String × Document)) (key : String)
    (hDepth : stack.length + 1 ≤ maxDepth) :
    Reader.close (.object members key true :: stack) '}' =
      some (Reader.complete stack (.object members.reverse)) := by
  have hShallow : ¬ maxDepth < stack.length + 1 := Nat.not_lt.mpr hDepth
  simp [Reader.close, hShallow]

/-- Behind what stands before an item the reader expects a value. -/
theorem result_itemLead {items : List Document} {s : List Char}
    (hStart : ∃ c rest, s = c :: rest ∧ isEnd c = false) (first : Bool) (outer inner : Gap) :
    ({ stack := .array items :: stack, phase := itemPhase first } : Reader).result
        (itemLead first outer inner ++ s) =
      ({ stack := .array items :: stack, phase := .value } : Reader).result s := by
  obtain ⟨c, rest, rfl, hEnd⟩ := hStart
  rw [itemLead, List.append_assoc, List.append_assoc, result_gap (step_space_itemPhase first)]
  cases first with
  | false =>
    -- a comma makes the reader expect a value
    have hComma : ({ stack := .array items :: stack, phase := itemPhase false } : Reader).step ',' =
        some { stack := .array items :: stack, phase := .value } := rfl
    rw [comma, if_neg (by decide), List.singleton_append, Reader.result_cons, hComma,
      Option.bind_some, result_gap step_space_value]
  | true =>
    -- at the first item the reader must see that the array does not end
    simp only [isEnd, Bool.or_eq_false_iff, beq_eq_false_iff_ne] at hEnd
    rw [comma, if_pos rfl, List.nil_append, result_gap (step_space_itemPhase true),
      Reader.result_cons, Reader.result_cons]
    simp [itemPhase, Reader.step, hEnd]

/-- Behind what stands before a member's value the reader expects a value and keeps its key. -/
theorem result_memberLead (members : List (String × Document)) (oldKey : String) (s : List Char)
    (first : Bool) (outer inner : Gap) (key : StringText) (before after : Gap) :
    ({ stack := .object members oldKey true :: stack, phase := memberPhase first } : Reader).result
        (memberLead first outer inner key before after ++ s) =
      ({ stack := .object members key.value true :: stack, phase := .value } : Reader).result
        s := by
  -- a key is read alike at the first member and behind a comma
  have hKey (phase : Phase) (hPhase : phase = .firstKey ∨ phase = .key) (t : List Char) :
      ({ stack := .object members oldKey true :: stack, phase } : Reader).result
          (key.text ++ t) =
        ({ stack := .object members key.value true :: stack, phase := .colon } : Reader).result
          t := by
    have hOpen : ({ stack := .object members oldKey true :: stack, phase } : Reader).step '"' =
        some { stack := .object members oldKey true :: stack, phase := .string true [] .none } := by
      rcases hPhase with rfl | rfl <;> rfl
    rw [StringText.text, List.cons_append, List.append_assoc, Reader.result_cons, hOpen,
      Option.bind_some, List.singleton_append, result_key]
  have hColon : ({ stack := .object members key.value true :: stack, phase := .colon } :
      Reader).step ':' =
        some { stack := .object members key.value true :: stack, phase := .value } := rfl
  simp only [memberLead, itemLead, List.append_assoc, List.cons_append]
  rw [result_gap (step_space_memberPhase first)]
  cases first with
  | false =>
    have hComma : ({ stack := .object members oldKey true :: stack, phase := memberPhase false } :
        Reader).step ',' =
          some { stack := .object members oldKey true :: stack, phase := .key } := rfl
    rw [comma, if_neg (by decide), List.singleton_append, Reader.result_cons, hComma,
      Option.bind_some, result_gap step_space_key, hKey _ (.inr rfl), result_gap step_space_colon,
      Reader.result_cons, hColon, Option.bind_some, result_gap step_space_value]
  | true =>
    rw [comma, if_pos rfl, List.nil_append, result_gap (step_space_memberPhase true),
      memberPhase, if_pos rfl, hKey _ (.inl rfl), result_gap step_space_colon,
      Reader.result_cons, hColon, Option.bind_some, result_gap step_space_value]

end Leads

/-- What ends an item or the container around it may come behind a value. -/
theorem ends_of_gap (gap : Gap) {s : List Char} (hEnds : Ends s) : Ends (gap.1 ++ s) := by
  intro c hc
  cases hGap : gap.1 with
  | nil =>
    rw [hGap] at hc
    exact hEnds c hc
  | cons d blanks =>
    have hSpace := gap.2 d (by rw [hGap]; exact List.mem_cons_self)
    rw [hGap] at hc
    simp only [List.cons_append, List.head?_cons, Option.mem_def, Option.some.injEq] at hc
    subst hc
    simp [isEnd, hSpace]

theorem ends_gap (gap : Gap) : Ends gap.1 := by
  have hEnds := ends_of_gap gap (s := []) (by intro c hc; simp at hc)
  rwa [List.append_nil] at hEnds

/-- A beginning of what may follow a value may follow it too. -/
theorem ends_take {s : List Char} (hEnds : Ends s) (n : Nat) : Ends (s.take n) := by
  cases s with
  | nil => rwa [List.take_nil]
  | cons c s =>
    cases n with
    | zero =>
      intro d hd
      simp at hd
    | succ n => exact hEnds

theorem ends_cons {c : Char} (h : isEnd c = true) (s : List Char) : Ends (c :: s) := by
  intro d hd
  simp only [List.head?_cons, Option.mem_def, Option.some.injEq] at hd
  rwa [← hd]

/-- The items behind the first one begin with a comma or a blank. -/
theorem ends_items (items : WrittenItems) {s : List Char} (hEnds : Ends s) :
    Ends (items.text false ++ s) := by
  cases items with
  | nil => exact hEnds
  | cons outer inner value rest =>
    simp only [WrittenItems.text, itemLead, List.append_assoc]
    exact ends_of_gap outer (ends_cons (by decide) _)

theorem ends_members (members : WrittenMembers) {s : List Char} (hEnds : Ends s) :
    Ends (members.text false ++ s) := by
  cases members with
  | nil => exact hEnds
  | cons outer inner key before after value rest =>
    simp only [WrittenMembers.text, memberLead, itemLead, List.append_assoc]
    exact ends_of_gap outer (ends_cons (by decide) _)

mutual

/-- A reader takes the text of a value for the value. -/
theorem Written.result_text : ∀ (w : Written) {stack : List Frame} {rest : List Char},
    stack.length + w.depth ≤ maxDepth → Ends rest →
      ({ stack, phase := .value } : Reader).result (w.text ++ rest) =
        (Reader.complete stack w.document).result rest
  | .name n, _, _, _, _ => result_name n
  | .numeral t, _, _, _, hEnds => result_numeralText t hEnds
  | .string t, _, _, _, _ => result_stringText t
  | .array items gap, stack, rest, hDepth, _ => by
    have hOpen : ({ stack, phase := .value } : Reader).step '[' =
        some { stack := .array [] :: stack, phase := itemPhase true } := rfl
    rw [Written.depth] at hDepth
    simp only [Written.text, List.cons_append, List.append_assoc, List.nil_append]
    rw [Reader.result_cons, hOpen, Option.bind_some, items.result_text true [] gap (by omega)]
    rfl
  | .object members gap, stack, rest, hDepth, _ => by
    have hOpen : ({ stack, phase := .value } : Reader).step '{' =
        some { stack := .object [] "" true :: stack, phase := memberPhase true } := rfl
    rw [Written.depth] at hDepth
    simp only [Written.text, List.cons_append, List.append_assoc, List.nil_append]
    rw [Reader.result_cons, hOpen, Option.bind_some, members.result_text true [] "" gap (by omega)]
    rfl

theorem WrittenItems.result_text : ∀ (items : WrittenItems) (first : Bool) (done : List Document)
    (gap : Gap) {stack : List Frame} {rest : List Char},
    stack.length + 1 + items.depth ≤ maxDepth →
      ({ stack := .array done :: stack, phase := itemPhase first } : Reader).result
          (items.text first ++ (gap.1 ++ ']' :: rest)) =
        (Reader.complete stack (.array (done.reverse ++ items.documents))).result rest
  | .nil, first, done, gap, stack, rest, hDepth => by
    have hClose : ({ stack := .array done :: stack, phase := itemPhase first } : Reader).step ']' =
        some (Reader.complete stack (.array done.reverse)) := by
      rw [← close_array done (by omega)]
      cases first <;> rfl
    rw [WrittenItems.text, List.nil_append, result_gap (step_space_itemPhase first),
      Reader.result_cons, hClose, Option.bind_some, WrittenItems.documents, List.append_nil]
  | .cons outer inner value tail, first, done, gap, stack, rest, hDepth => by
    rw [WrittenItems.depth] at hDepth
    have hStart : ∃ c t, value.text ++ (tail.text false ++ (gap.1 ++ ']' :: rest)) = c :: t ∧
        isEnd c = false := by
      obtain ⟨c, t, hText, hEnd⟩ := value.text_eq_cons
      exact ⟨c, t ++ (tail.text false ++ (gap.1 ++ ']' :: rest)), by rw [hText]; rfl, hEnd⟩
    have hEnds : Ends (tail.text false ++ (gap.1 ++ ']' :: rest)) :=
      ends_items tail (ends_of_gap gap (ends_cons (by decide) rest))
    rw [WrittenItems.text, List.append_assoc, List.append_assoc, result_itemLead hStart,
      value.result_text (by rw [List.length_cons]; omega) hEnds]
    -- behind the value the reader stands before the other items
    show (Reader.mk (.array (value.document :: done) :: stack) (itemPhase false)).result _ = _
    rw [tail.result_text false (value.document :: done) gap (by omega), WrittenItems.documents,
      List.reverse_cons, List.append_assoc, List.singleton_append]

theorem WrittenMembers.result_text : ∀ (members : WrittenMembers) (first : Bool)
    (done : List (String × Document)) (key : String) (gap : Gap) {stack : List Frame}
    {rest : List Char}, stack.length + 1 + members.depth ≤ maxDepth →
      ({ stack := .object done key true :: stack, phase := memberPhase first } : Reader).result
          (members.text first ++ (gap.1 ++ '}' :: rest)) =
        (Reader.complete stack (.object (done.reverse ++ members.documents))).result rest
  | .nil, first, done, key, gap, stack, rest, hDepth => by
    have hClose : ({ stack := .object done key true :: stack, phase := memberPhase first } :
        Reader).step '}' = some (Reader.complete stack (.object done.reverse)) := by
      rw [← close_object done key (by omega)]
      cases first <;> rfl
    rw [WrittenMembers.text, List.nil_append, result_gap (step_space_memberPhase first),
      Reader.result_cons, hClose, Option.bind_some, WrittenMembers.documents, List.append_nil]
  | .cons outer inner key' before after value tail, first, done, key, gap, stack, rest, hDepth => by
    rw [WrittenMembers.depth] at hDepth
    have hEnds : Ends (tail.text false ++ (gap.1 ++ '}' :: rest)) :=
      ends_members tail (ends_of_gap gap (ends_cons (by decide) rest))
    rw [WrittenMembers.text, List.append_assoc, List.append_assoc, result_memberLead,
      value.result_text (by rw [List.length_cons]; omega) hEnds]
    -- behind the value the reader stands before the other members
    show (Reader.mk (.object ((key'.value, value.document) :: done) key'.value true :: stack)
      (memberPhase false)).result _ = _
    rw [tail.result_text false ((key'.value, value.document) :: done) key'.value gap (by omega),
      WrittenMembers.documents, List.reverse_cons, List.append_assoc, List.singleton_append]

end

/-- The text of a page reads as what the page says. -/
theorem Page.read?_text (p : Page) : Document.read? p.text = some p.root.document := by
  show ({} : Reader).result p.text = _
  rw [Page.text, List.append_assoc, result_gap step_space_value,
    p.root.result_text (by simpa using p.depth_le) (ends_gap p.after)]
  have hDone := result_gap (r := Reader.complete [] p.root.document)
    (fun c h => by simp [Reader.complete, Reader.step, h]) p.after []
  rw [List.append_nil] at hDone
  rw [hDone]
  rfl

end Onboarding.Json
