import Onboarding.Assistant.Repair
import Onboarding.Proofs.Json.Reading

/-!
# Onboarding — how a repair goes over the tokens of a value

A stretch of text is quiet when the repair could close at no point inside it:
wherever the text ends there, it is cut back to where it could be closed before
(`Quiet`). Blanks, commas, colons, keys and all of a string but its last quote
are quiet, and quiet stretches put together are quiet.

A name or a numeral is a token: the repair gathers its characters and decides
only when the token has ended whether it is a number or a literal.

## Results

* `quiet_itemLead`, `quiet_memberLead` — what stands before a value is quiet.
* `run_token_end` — a text that ends inside a token is cut before the token,
  unless its part is complete.
* `isScalar_eq_isSome` — a token of the grammar of numerals is complete exactly
  if it denotes a number.
-/

namespace Onboarding.Repair

open Json

namespace State

/-- The state behind a text that changes nothing else. -/
def read (s : State) (t : List Char) : State := { s with taken := t.reverse ++ s.taken }

/-- The state behind a text at whose end everything read could be closed. -/
def past (s : State) (t : List Char) : State := (s.read t).mark

/-- The text up to the last point at which it could be closed, closed there. -/
def cut (s : State) : List Char :=
  Text.trimEnd s.safe.reverse ++ s.safeStack.map Bracket.closing

@[simp] theorem read_nil (s : State) : s.read [] = s := rfl

/-- Text is read character by character. -/
theorem read_cons (s : State) (c : Char) (t : List Char) :
    s.read (c :: t) = (s.take c).read t := by
  simp [read, take]

/-- Text is read piece by piece. -/
theorem read_append (s : State) (t u : List Char) : s.read (t ++ u) = (s.read t).read u := by
  simp [read]

@[simp] theorem read_mode (s : State) (t : List Char) : (s.read t).mode = s.mode := rfl

/-- Outside of strings and tokens a text is cut where it could last be closed. -/
theorem finish_of_outside {s : State} (h : s.mode = .outside) : s.finish = s.cut := by
  rw [finish, h]
  rfl

theorem finish_of_string {s : State} {isKey escaped : Bool}
    (h : s.mode = .string isKey escaped) : s.finish = s.cut := by
  rw [finish, h]
  rfl

/-- A run goes on from what the first character leads to. -/
theorem run_cons {s next : State} {c : Char} (h : s.step c = .more next) (rest : List Char) :
    s.run (c :: rest) = next.run rest := by
  rw [run, h]

end State

/-! ## Quiet stretches -/

/-- Going over the text leads to the state `last`, and the repair could close nowhere inside. -/
structure Quiet (s : State) (t : List Char) (last : State) : Prop where
  run_take : ∀ n, s.run (t.take n) = s.cut
  run_append : ∀ rest, s.run (t ++ rest) = last.run rest
  cut_eq : last.cut = s.cut

namespace Quiet

variable {s next last : State} {c : Char} {t u : List Char}

/-- The empty stretch is quiet where the end of the text closes nothing more. -/
theorem nil (h : s.finish = s.cut) : Quiet s [] s where
  run_take n := by rw [List.take_nil]; exact h
  run_append _ := rfl
  cut_eq := rfl

/-- A character that closes nothing may stand in front of a quiet stretch. -/
theorem cons (hFinish : s.finish = s.cut) (hStep : s.step c = .more next)
    (hCut : next.cut = s.cut) (h : Quiet next t last) : Quiet s (c :: t) last where
  run_take
    | 0 => hFinish
    | n + 1 => by rw [List.take_succ_cons, State.run_cons hStep, h.run_take, hCut]
  run_append rest := by rw [List.cons_append, State.run_cons hStep, h.run_append]
  cut_eq := h.cut_eq.trans hCut

theorem single (hMode : s.mode = .outside) (hStep : s.step c = .more next)
    (hNext : next.mode = .outside) (hCut : next.cut = s.cut) : Quiet s [c] next :=
  .cons (State.finish_of_outside hMode) hStep hCut (.nil (State.finish_of_outside hNext))

/-- Two quiet stretches make one. -/
theorem append (hFirst : Quiet s t next) (hSecond : Quiet next u last) :
    Quiet s (t ++ u) last where
  run_take n := by
    rw [List.take_append]
    rcases Nat.lt_or_ge n t.length with hLt | hGe
    · -- the text ends inside the first stretch
      have hNone : n - t.length = 0 := by omega
      rw [hNone, List.take_zero, List.append_nil]
      exact hFirst.run_take n
    · rw [List.take_of_length_le hGe, hFirst.run_append, hSecond.run_take, hFirst.cut_eq]
  run_append rest := by rw [List.append_assoc, hFirst.run_append, hSecond.run_append]
  cut_eq := hSecond.cut_eq.trans hFirst.cut_eq

end Quiet

/-! ## Characters outside of tokens -/

/-- What the grammar takes for a blank is one for the repair. -/
theorem isBlank_of_isSpace {c : Char} (h : isSpace c = true) : Text.isBlank c = true := by
  simp only [isSpace, Bool.or_eq_true, beq_iff_eq] at h
  rcases h with ((rfl | rfl) | rfl) | rfl <;> decide

/-- What may follow a value breaks a token. -/
theorem isBreak_of_isEnd {c : Char} (h : isEnd c = true) : isBreak c = true := by
  simp only [isEnd, Bool.or_eq_true, beq_iff_eq] at h
  rcases h with ((hSpace | rfl) | rfl) | rfl
  · simp [isBreak, isBlank_of_isSpace hSpace]
  · decide
  · decide
  · decide

section Outside

variable {s : State}

theorem step_of_outside (hMode : s.mode = .outside) (c : Char) : s.step c = s.stepOutside c := by
  rw [State.step, hMode]

/-- A blank outside is taken and changes nothing else. -/
theorem step_isSpace (hMode : s.mode = .outside) {c : Char} (hSpace : isSpace c = true) :
    s.step c = .more (s.take c) := by
  have hBlank := isBlank_of_isSpace hSpace
  rw [step_of_outside hMode]
  -- no blank of JSON is a bracket, a quote or a comma
  simp only [isSpace, Bool.or_eq_true, beq_iff_eq] at hSpace
  rcases hSpace with ((rfl | rfl) | rfl) | rfl <;> simp [State.stepOutside, hBlank]

/-- Behind a comma an object expects a key again. -/
theorem step_comma (hMode : s.mode = .outside) : s.step ',' =
    .more { s.take ',' with expectsKey := s.stack.head? == some .object || s.expectsKey } := by
  rw [step_of_outside hMode]
  rfl

/-- A colon outside is taken and changes nothing else. -/
theorem step_colon (hMode : s.mode = .outside) : s.step ':' = .more (s.take ':') := by
  rw [step_of_outside hMode]
  rfl

/-- A quote begins a string, which is a key where the object expects one. -/
theorem step_quote (hMode : s.mode = .outside) : s.step '"' =
    .more { s.take '"' with
      mode := .string (s.stack.head? == some .object && s.expectsKey) false,
      expectsKey := false } := by
  rw [step_of_outside hMode]
  rfl

/-- Blanks between tokens are quiet. -/
theorem quiet_gap (hMode : s.mode = .outside) (gap : Gap) : Quiet s gap.1 (s.read gap.1) := by
  obtain ⟨blanks, hBlanks⟩ := gap
  induction blanks generalizing s with
  | nil => exact .nil (State.finish_of_outside hMode)
  | cons c blanks ih =>
    have hStep := step_isSpace hMode (hBlanks c List.mem_cons_self)
    have hRest := ih (s := s.take c) hMode fun d hd => hBlanks d (List.mem_cons_of_mem _ hd)
    show Quiet s (c :: blanks) (s.read (c :: blanks))
    rw [State.read_cons]
    exact .cons (State.finish_of_outside hMode) hStep rfl hRest

/-- A quiet stretch goes on with blanks. -/
theorem Quiet.gap {next : State} {t : List Char} (h : Quiet s t next)
    (hMode : next.mode = .outside) (gap : Gap) : Quiet s (t ++ gap.1) (next.read gap.1) :=
  h.append (quiet_gap hMode gap)

end Outside

/-! ## Strings -/

/-- Inside a literal the repair knows as much as it needs: whether a backslash stands before. -/
theorem step_literal {s : State} {isKey : Bool} {state next : List Piece × Escape} {c : Char}
    (hStep : literalStep state c = some next)
    (hMode : s.mode = .string isKey (decide (state.2 = .started))) :
    s.step c = .more { s.take c with mode := .string isKey (decide (next.2 = .started)) } := by
  cases literalStep_cases hStep with
  | char hQuote hBack => simp [State.step, hMode, hQuote, hBack, State.take]
  | backslash => simp [State.step, hMode]
  | unit => simp [State.step, hMode]
  | escaped => simp [State.step, hMode]
  -- the repair does not know about the digits, but no digit ends or escapes anything
  | digit hDigit => simp [State.step, hMode, ne_of_hexDigit? hDigit, State.take]
  | lastDigit hDigit => simp [State.step, hMode, ne_of_hexDigit? hDigit, State.take]

/-- The inside of a literal is quiet, and the repair knows which of its quotes are escaped. -/
theorem quiet_literal {s : State} {isKey : Bool} {state last : List Piece × Escape}
    {body : List Char} (hScan : scanLiteral state body = some last)
    (hMode : s.mode = .string isKey (decide (state.2 = .started))) :
    Quiet s body { s.read body with mode := .string isKey (decide (last.2 = .started)) } := by
  induction body generalizing s state with
  | nil =>
    rw [scanLiteral, List.foldlM_nil] at hScan
    cases hScan
    rw [← hMode]
    exact .nil (State.finish_of_string hMode)
  | cons c body ih =>
    rw [scanLiteral, List.foldlM_cons, Option.bind_eq_bind, Option.bind_eq_some_iff] at hScan
    obtain ⟨next, hNext, hScan⟩ := hScan
    have hRest := ih (s := { s.take c with mode := .string isKey (decide (next.2 = .started)) })
      hScan rfl
    rw [State.read_cons]
    exact .cons (State.finish_of_string hMode) (step_literal hNext hMode) rfl hRest

/-- A literal is quiet up to its last quote. -/
theorem quiet_openString {s : State} (hMode : s.mode = .outside) (t : StringText) :
    Quiet s ('"' :: t.body)
      { s.read ('"' :: t.body) with
        mode := .string (s.stack.head? == some .object && s.expectsKey) false,
        expectsKey := false } := by
  obtain ⟨pieces, hScan, -⟩ := t.exists_pieces
  have hBody := quiet_literal (s := { s.take '"' with
    mode := .string (s.stack.head? == some .object && s.expectsKey) false,
    expectsKey := false }) hScan rfl
  rw [State.read_cons]
  exact .cons (State.finish_of_outside hMode) (step_quote hMode) rfl hBody

/-- A key is quiet as a whole. -/
theorem quiet_key {s : State} (hMode : s.mode = .outside) (hTop : s.stack.head? = some .object)
    (hKey : s.expectsKey = true) (key : StringText) :
    Quiet s key.text { s.read key.text with expectsKey := false } := by
  have hOpen := quiet_openString hMode key
  rw [hTop, hKey] at hOpen
  have hText : key.text = ('"' :: key.body) ++ ['"'] := rfl
  -- behind a key nothing is marked: an object cannot be closed there
  have hStep (s : State) (h : s.mode = .string true false) :
      s.step '"' = .more { s.take '"' with mode := .outside } := by
    simp [State.step, h]
  rw [hText, State.read_append]
  show Quiet s _ { (s.read ('"' :: key.body)).read ['"'] with
    mode := s.mode, expectsKey := false }
  rw [hMode]
  exact hOpen.append (.cons (State.finish_of_string rfl) (hStep _ rfl) rfl
    (.nil (State.finish_of_outside rfl)))

/-! ## What stands before a value -/

/-- What stands before an item is quiet. -/
theorem quiet_itemLead {s : State} (hMode : s.mode = .outside)
    (hTop : s.stack.head? = some .array) (hKey : s.expectsKey = false) (first : Bool)
    (outer inner : Gap) :
    Quiet s (itemLead first outer inner) (s.read (itemLead first outer inner)) := by
  have hComma (s : State) (hMode : s.mode = .outside) (hTop : s.stack.head? = some .array)
      (hKey : s.expectsKey = false) : Quiet s (comma first) (s.read (comma first)) := by
    cases first with
    | true => exact .nil (State.finish_of_outside hMode)
    | false =>
      -- in an array a comma leaves the flag as it is
      have hStep := step_comma hMode
      rw [hTop, hKey, show (some Bracket.array == some Bracket.object || false) = false from rfl,
        ← hKey] at hStep
      exact .single hMode hStep hMode rfl
  rw [itemLead, State.read_append, State.read_append]
  exact ((quiet_gap hMode outer).append (hComma _ hMode hTop hKey)).gap hMode inner

/-- What stands before the value of a member is quiet, and no key is expected behind it. -/
theorem quiet_memberLead {s : State} (hMode : s.mode = .outside)
    (hTop : s.stack.head? = some .object) (first : Bool) (hKey : s.expectsKey = first)
    (outer inner : Gap) (key : StringText) (before after : Gap) :
    Quiet s (memberLead first outer inner key before after)
      { s.read (memberLead first outer inner key before after) with expectsKey := false } := by
  have hComma (s : State) (hMode : s.mode = .outside) (hTop : s.stack.head? = some .object)
      (hKey : s.expectsKey = first) :
      Quiet s (comma first) { s.read (comma first) with expectsKey := true } := by
    cases first with
    | true =>
      show Quiet s [] { s with expectsKey := true }
      rw [← hKey]
      exact .nil (State.finish_of_outside hMode)
    | false =>
      -- in an object a comma sets the flag
      have hStep := step_comma hMode
      rw [hTop] at hStep
      exact .single hMode hStep hMode rfl
  have hColon (s : State) (hMode : s.mode = .outside) : Quiet s [':'] (s.read [':']) :=
    .single hMode (step_colon hMode) hMode rfl
  have hText : memberLead first outer inner key before after =
      outer.1 ++ comma first ++ inner.1 ++ key.text ++ before.1 ++ [':'] ++ after.1 := by
    simp [memberLead, itemLead]
  -- the key is read with the flag set, everything behind it without
  have hItem := ((quiet_gap hMode outer).append (hComma _ hMode hTop hKey)).gap hMode inner
  have hKeyed := hItem.append (quiet_key (by exact hMode) (by exact hTop) rfl key)
  have hMember := hKeyed.gap hMode before
  have hAll := (hMember.append (hColon _ hMode)).gap hMode after
  rw [hText, State.read_append, State.read_append, State.read_append, State.read_append,
    State.read_append, State.read_append]
  exact hAll

/-! ## Tokens -/

/-- Whether a character can be the first one of a token and goes on with one. -/
def isTokenChar (c : Char) : Bool := !isBreak c && c != '{' && c != '[' && c != '"'

/-- The characters of numerals are those of a token. -/
theorem isTokenChar_of_isNumeralChar {c : Char} (h : isNumeralChar c = true) :
    isTokenChar c = true := by
  -- blanks are many, so this goes by the code points of the digits
  have hBlank : Text.isBlank c = false := by
    rw [Bool.eq_false_iff]
    intro hBlank
    simp only [isNumeralChar, Bool.or_eq_true, beq_iff_eq] at h
    rcases h with ((((hDigit | rfl) | rfl) | rfl) | rfl) | rfl
    · simp only [Char.isDigit, Bool.and_eq_true, decide_eq_true_eq,
        UInt32.le_iff_toNat_le] at hDigit
      simp only [Text.isBlank, Bool.or_eq_true, Bool.and_eq_true, decide_eq_true_eq,
        beq_iff_eq] at hBlank
      have hLow : 48 ≤ c.toNat := hDigit.1
      have hHigh : c.toNat ≤ 57 := hDigit.2
      omega
    all_goals exact absurd hBlank (by decide)
  -- every other character that ends or begins something else is no character of numerals
  have hNe (d : Char) (hd : isNumeralChar d = false) : c ≠ d := by
    rintro rfl
    rw [hd] at h
    exact absurd h (by decide)
  simp [isTokenChar, isBreak, hBlank, hNe ',' (by decide), hNe '}' (by decide),
    hNe ']' (by decide), hNe ':' (by decide), hNe '{' (by decide), hNe '[' (by decide),
    hNe '"' (by decide)]

theorem isTokenChar_of_mem_name {n : Name} {c : Char} (h : c ∈ n.text) : isTokenChar c = true := by
  have hAll : n.text.all isTokenChar = true := by cases n <;> decide
  exact List.all_eq_true.mp hAll c h

/-- The repair is about to go over a value inside a container. -/
structure AtValue (s : State) : Prop where
  mode : s.mode = .outside
  expectsKey : s.expectsKey = false
  stack : s.stack ≠ []

section Tokens

variable {s : State} {t : List Char}

/-- Where a value may stand, such a character begins a token. -/
theorem step_token (hValue : AtValue s) {c : Char} (h : isTokenChar c = true) :
    s.step c = .more { s.take c with mode := .scalar [c] } := by
  simp only [isTokenChar, isBreak, Bool.and_eq_true, Bool.not_eq_true', Bool.or_eq_false_iff,
    beq_eq_false_iff_ne, bne_iff_ne] at h
  rw [step_of_outside hValue.mode]
  simp [State.stepOutside, h, hValue.stack]

/-- The characters of a token are collected backwards. -/
theorem run_token_more {token : List Char} (rest : List Char) (hMode : s.mode = .scalar token)
    (h : ∀ c ∈ t, isTokenChar c = true) :
    s.run (t ++ rest) =
      ({ s.read t with mode := .scalar (t.reverse ++ token) } : State).run rest := by
  -- the token read so far stands reversed in the mode, so it grows with every step
  induction t generalizing s token with
  | nil =>
    show s.run rest = ({ s with mode := .scalar token } : State).run rest
    rw [← hMode]
  | cons c t ih =>
    have hBreak : isBreak c = false := by
      have hChar := h c List.mem_cons_self
      simp only [isTokenChar, Bool.and_eq_true, Bool.not_eq_true'] at hChar
      exact hChar.1.1.1
    have hStep : s.step c = .more { s.take c with mode := .scalar (c :: token) } := by
      simp [State.step, hMode, hBreak]
    have hRest := ih (s := { s.take c with mode := .scalar (c :: token) }) rfl
      fun d hd => h d (List.mem_cons_of_mem _ hd)
    rw [List.cons_append, State.run_cons hStep, hRest, State.read_cons, List.reverse_cons,
      List.append_assoc]
    rfl

/-- The characters of a token are gathered. -/
theorem run_token (rest : List Char) (hValue : AtValue s) (hNonempty : t ≠ [])
    (h : ∀ c ∈ t, isTokenChar c = true) :
    s.run (t ++ rest) = ({ s.read t with mode := .scalar t.reverse } : State).run rest := by
  cases t with
  | nil => exact absurd rfl hNonempty
  | cons c t =>
    have hStep := step_token hValue (h c List.mem_cons_self)
    have hRest := run_token_more (s := { s.take c with mode := .scalar [c] }) rest rfl
      fun d hd => h d (List.mem_cons_of_mem _ hd)
    rw [List.cons_append, State.run_cons hStep, hRest, State.read_cons, List.reverse_cons]
    rfl

/-- A text that ends in a token is cut before the token, unless the token is complete. -/
theorem run_token_end (hValue : AtValue s) (h : ∀ c ∈ t, isTokenChar c = true) :
    s.run t = if isScalar t then (s.past t).cut else s.cut := by
  by_cases hNonempty : t = []
  · -- the empty token has not begun
    subst hNonempty
    exact State.finish_of_outside hValue.mode
  · have hRun := run_token [] hValue hNonempty h
    rw [List.append_nil] at hRun
    rw [hRun]
    show State.finish _ = _
    rw [State.finish]
    simp only [State.endScalar, List.reverse_reverse]
    split
    · rfl
    · rfl

/-- A complete token is done as soon as something else follows, or nothing. -/
theorem run_token_append {rest : List Char} (hValue : AtValue s) (hScalar : isScalar t = true)
    (h : ∀ c ∈ t, isTokenChar c = true) (hEnds : Ends rest) :
    s.run (t ++ rest) = (s.past t).run rest := by
  have hNonempty : t ≠ [] := by
    rintro rfl
    exact absurd hScalar (by decide)
  cases rest with
  | nil =>
    rw [List.append_nil, run_token_end hValue h, if_pos hScalar]
    exact (State.finish_of_outside (s := s.past t) hValue.mode).symm
  | cons c rest =>
    -- the break ends the token first and is then taken as it would be behind the token
    have hBreak := isBreak_of_isEnd (hEnds c rfl)
    have hStep : ({ s.read t with mode := .scalar t.reverse } : State).step c =
        (s.past t).step c := by
      rw [step_of_outside (s := s.past t) hValue.mode, State.step]
      simp only [hBreak, if_true, State.endScalar, List.reverse_reverse, hScalar]
      rw [State.past, State.mark, State.mark, State.read_mode, hValue.mode]
    rw [run_token _ hValue hNonempty h, State.run, hStep, State.run]

end Tokens

/-! ## Complete tokens -/

/-- A token of the grammar of numerals is complete exactly if it denotes a number. -/
theorem isScalar_eq_isSome {t : List Char} {part : Numeral.Part} (h : numeralPart? t = some part) :
    isScalar t = (number? t).isSome := by
  cases t with
  | nil => simp [numeralPart?] at h
  | cons c t =>
    have hPart := h
    rw [numeralPart?, Option.bind_eq_some_iff] at h
    obtain ⟨first, hFirst, hScan⟩ := h
    -- the reader is inside the numeral at the end of the token
    have hRead : Document.read? (c :: t) =
        if part.isComplete then some (Reader.numberOf (t.reverse ++ [c])) else none := by
      have hResult : (Reader.mk [] (.numeral [c] first)).result (t ++ []) =
          (Reader.mk [] (.numeral (t.reverse ++ [c]) part)).result [] := result_numeral hScan [c]
      rw [List.append_nil] at hResult
      show ({} : Reader).result (c :: t) = _
      rw [Reader.result_cons, step_of_first? hFirst, Option.bind_some, hResult,
        Reader.result_nil, Reader.finish]
      simp
    rw [isScalar, hRead, number?, hPart]
    cases hComplete : part.isComplete with
    | false => simp [hComplete]
    | true =>
      simp only [hComplete, if_true, Reader.numberOf, List.reverse_append, List.reverse_reverse,
        List.reverse_singleton, List.singleton_append]
      cases Numeral.read? (c :: t) <;> rfl

/-- The beginning of a numeral goes on with the grammar of numerals. -/
theorem exists_numeralPart_take {t : List Char} {part : Numeral.Part}
    (h : numeralPart? t = some part) {n : Nat} (hn : 0 < n) :
    ∃ part, numeralPart? (t.take n) = some part := by
  obtain ⟨m, rfl⟩ : ∃ m, n = m + 1 := ⟨n - 1, by omega⟩
  cases t with
  | nil => simp [numeralPart?] at h
  | cons c t =>
    rw [numeralPart?, Option.bind_eq_some_iff] at h
    obtain ⟨first, hFirst, hScan⟩ := h
    -- scanning the whole numeral scans its beginning first
    rw [scanNumeral, ← List.take_append_drop m t, List.foldlM_append, Option.bind_eq_bind,
      Option.bind_eq_some_iff] at hScan
    obtain ⟨last, hLast, -⟩ := hScan
    refine ⟨last, ?_⟩
    rw [List.take_succ_cons, numeralPart?, hFirst]
    exact hLast

/-- A name is complete as a whole only. -/
theorem isScalar_take_name (m : Name) (n : Nat) :
    isScalar (m.text.take n) = decide (m.text.length ≤ n) := by
  rcases Nat.lt_or_ge n m.text.length with hLt | hGe
  · -- finitely many beginnings of three names, none of which reads as anything
    rw [decide_eq_false (by omega)]
    revert n
    cases m <;> decide
  · rw [decide_eq_true hGe, List.take_of_length_le hGe]
    cases m <;> rfl

end Onboarding.Repair
