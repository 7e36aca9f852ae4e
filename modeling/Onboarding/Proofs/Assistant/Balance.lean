import Onboarding.Proofs.Assistant.Settling

/-!
# Onboarding — balanced brackets

Whether brackets are balanced is said by a reader of its own, which knows strings,
escapes and two kinds of brackets and nothing else of JSON (`Nesting`): every closing
bracket outside of strings closes the innermost container that is open, and that one
is of its kind.

The repair does not compare the kinds, it takes a closing bracket with nothing open,
and it goes over the quotes and brackets inside a number or a literal. So it can fall
out of step with the reader. Where no token of what it keeps holds a quote or an
opening bracket (`Clean`), the two have the same containers open (`Tracks`), and the
brackets at the end close just these: only a bracket of the text itself that does not
match can be in the way of balance.

## Results

* `nesting?_closers` — the brackets at the end close what is open.
* `Tracks.step` — the reader and the repair stay in step.
* `balanced_repair_iff` — when a repaired text is balanced.
* `not_balanced_repair` — repaired texts that are not balanced.
-/

namespace Onboarding.Repair

/-! ## Reading brackets -/

/-- What a reader of brackets knows of a text. -/
structure Nesting where
  /-- The containers that are open, innermost first. -/
  stack : List Bracket := []
  /-- Inside a string; whether a backslash stands before. -/
  string : Option Bool := none
  /-- Inside a container and behind a character that neither ends nor begins anything. -/
  inToken : Bool := false
deriving DecidableEq

/-- Whether a character begins a container or a string. -/
def opens (c : Char) : Bool := c == '{' || c == '[' || c == '"'

namespace Nesting

/-- Close the innermost container if it is of that kind. -/
def close? (n : Nesting) (b : Bracket) : Option Nesting :=
  if n.stack.head? = some b then some { stack := n.stack.tail } else none

/-- Read a character; there is no reading a closing bracket that does not match. -/
def step? (n : Nesting) (c : Char) : Option Nesting :=
  match n.string with
  | some true => some { n with string := some false }
  | some false =>
    if c = '\\' then some { n with string := some true }
    else if c = '"' then some { n with string := none }
    else some n
  | none =>
    if c = '{' then some { stack := .object :: n.stack }
    else if c = '[' then some { stack := .array :: n.stack }
    else if c = '}' then n.close? .object
    else if c = ']' then n.close? .array
    else if c = '"' then some { stack := n.stack, string := some false }
    else some { stack := n.stack, inToken := !n.stack.isEmpty && !isBreak c }

section Steps

variable {n n' : Nesting} {c : Char}

/-- An opening bracket outside of strings opens a container. -/
theorem step?_opening (hString : n.string = none) (b : Bracket) :
    n.step? b.opening = some { stack := b :: n.stack } := by
  cases b <;> simp [step?, hString, Bracket.opening]

/-- A closing bracket of the right kind closes the innermost container. -/
theorem step?_closing (hString : n.string = none) {b : Bracket} {rest : List Bracket}
    (hStack : n.stack = b :: rest) : n.step? b.closing = some { stack := rest } := by
  cases b <;> simp [step?, close?, Bracket.closing, hString, hStack]

/-- A closing bracket that can be read closes the innermost container. -/
theorem eq_of_step?_isClosing (hString : n.string = none) (hChar : isClosing c = true)
    (h : n.step? c = some n') : n' = { stack := n.stack.tail } := by
  simp only [isClosing, Bool.or_eq_true, beq_iff_eq] at hChar
  rcases hChar with rfl | rfl
  · simp [step?, close?, hString] at h
    exact h.2.symm
  · simp [step?, close?, hString] at h
    exact h.2.symm

/-- A quote outside of strings begins a string. -/
theorem step?_quote (hString : n.string = none) :
    n.step? '"' = some { stack := n.stack, string := some false } := by
  simp [step?, hString]

/-- Every other character outside may only begin, continue or end a token. -/
theorem step?_plain (hString : n.string = none) (hBracket : isClosing c = false)
    (hOpen : ∀ b, c ≠ Bracket.opening b) (hQuote : c ≠ '"') :
    n.step? c = some { stack := n.stack, inToken := !n.stack.isEmpty && !isBreak c } := by
  have hObject : c ≠ '{' := hOpen .object
  have hArray : c ≠ '[' := hOpen .array
  simp only [isClosing, Bool.or_eq_false_iff, beq_eq_false_iff_ne] at hBracket
  simp [step?, hString, hObject, hArray, hBracket, hQuote]

/-- Inside a container a token begins or goes on. -/
theorem step?_token (hString : n.string = none) (hStack : n.stack ≠ []) (hBreak : isBreak c = false)
    (hOpens : opens c = false) : n.step? c = some { stack := n.stack, inToken := true } := by
  simp only [opens, Bool.or_eq_false_iff, beq_eq_false_iff_ne] at hOpens
  have hBracket : isClosing c = false := by
    simp only [isBreak, Bool.or_eq_false_iff] at hBreak
    simp [isClosing, hBreak]
  have hOpen (b : Bracket) : c ≠ b.opening := by
    cases b with
    | object => exact hOpens.1.1
    | array => exact hOpens.1.2
  rw [step?_plain hString hBracket hOpen hOpens.2]
  simp [hStack, hBreak]

/-- Inside a string only a quote without a backslash before it counts. -/
theorem step?_inString {escaped : Bool} (hString : n.string = some escaped)
    (hChar : escaped = true ∨ c ≠ '"') :
    n.step? c = some { n with string := some (!escaped && c == '\\') } := by
  obtain ⟨stack, string, inToken⟩ := n
  cases hString
  cases escaped with
  | true => simp [step?]
  | false =>
    have hQuote : c ≠ '"' := by simpa using hChar
    by_cases hBack : c = '\\'
    · simp [step?, hBack]
    · simp [step?, hBack, hQuote]

/-- A quote that is not escaped ends a string. -/
theorem step?_endString (hString : n.string = some false) :
    n.step? '"' = some { n with string := none } := by
  simp [step?, hString]

end Steps

end Nesting

/-- What is open behind a text, if every closing bracket in it matches. -/
def nesting? (t : List Char) : Option Nesting := t.foldlM Nesting.step? {}

/-- Every closing bracket outside of strings closes the innermost open container and is of its
kind. -/
def Matched (t : List Char) : Prop := (nesting? t).isSome = true

/-- Every closing bracket matches, and nothing is left open. -/
def Balanced (t : List Char) : Prop :=
  ∃ n, nesting? t = some n ∧ n.stack = [] ∧ n.string = none

/-- Inside a container no number or literal goes on with a quote or an opening bracket. -/
def Clean (t : List Char) : Prop :=
  ∀ i, ∀ h : i < t.length, ∀ n ∈ nesting? (t.take i), n.inToken = true → opens t[i] = false

instance : DecidablePred Matched := fun _ => inferInstanceAs (Decidable (_ = true))

instance : DecidablePred Clean := fun t => by
  unfold Clean
  infer_instance

section Reading

variable {t u : List Char} {c : Char} {n : Nesting}

/-- A text is read piece by piece. -/
theorem nesting?_append (t u : List Char) :
    nesting? (t ++ u) = (nesting? t).bind fun n => u.foldlM Nesting.step? n := by
  rw [nesting?, List.foldlM_append]
  rfl

/-- A text is read character by character, the last one at the end. -/
theorem nesting?_concat (t : List Char) (c : Char) :
    nesting? (t ++ [c]) = (nesting? t).bind fun n => n.step? c := by
  rw [nesting?_append]
  congr 1
  funext n
  cases h : n.step? c <;> simp [List.foldlM, h]

/-- In a balanced text every closing bracket matches. -/
theorem Balanced.matched (h : Balanced t) : Matched t := by
  obtain ⟨n, hn, -⟩ := h
  rw [Matched, hn]
  rfl

theorem Matched.of_prefix (h : Matched u) (hPrefix : t <+: u) : Matched t := by
  obtain ⟨rest, rfl⟩ := hPrefix
  unfold Matched at h ⊢
  rw [nesting?_append] at h
  cases ht : nesting? t with
  | none => simp [ht] at h
  | some n => rfl

/-- A beginning of a clean text is clean. -/
theorem Clean.of_prefix (h : Clean u) (hPrefix : t <+: u) : Clean t := by
  obtain ⟨rest, rfl⟩ := hPrefix
  intro i hi n hn hToken
  have hAll := h i (by rw [List.length_append]; omega) n
    (by rwa [List.take_append_of_le_length (Nat.le_of_lt hi)]) hToken
  rwa [List.getElem_append_left hi] at hAll

theorem Clean.opens_eq_false (h : Clean (t ++ [c])) (hn : nesting? t = some n)
    (hToken : n.inToken = true) : opens c = false := by
  have hLast := h t.length (by simp) n (by simp [hn]) hToken
  simpa using hLast

/-- The brackets that close what is open leave nothing open. -/
theorem nesting?_closers (hn : nesting? t = some n) (hString : n.string = none) :
    Balanced (t ++ n.stack.map Bracket.closing) := by
  induction hStack : n.stack generalizing t n with
  | nil =>
    rw [List.map_nil, List.append_nil]
    exact ⟨n, hn, hStack, hString⟩
  | cons b rest ih =>
    have hClosed : nesting? (t ++ [b.closing]) = some { stack := rest } := by
      rw [nesting?_concat, hn]
      exact Nesting.step?_closing hString hStack
    have hRest := ih hClosed rfl rfl
    rwa [List.append_assoc] at hRest

end Reading

/-! ## The reader and the repair -/

/-- The reader knows of the text what the repair knows. -/
structure Tracks (n : Nesting) (s : State) : Prop where
  stack : n.stack = s.stack
  string : ∀ escaped, n.string = some escaped ↔ ∃ isKey, s.mode = .string isKey escaped
  inToken : n.inToken = true ↔ ∃ token, s.mode = .scalar token

namespace Tracks

variable {n n' : Nesting} {s base next : State} {c : Char}

/-- Outside of strings and tokens only the open containers have to agree. -/
theorem of_outside (hStack : n.stack = s.stack) (hString : n.string = none)
    (hToken : n.inToken = false) (hMode : s.mode = .outside) : Tracks n s where
  stack := hStack
  string _ := by simp [hString, hMode]
  inToken := by simp [hToken, hMode]

/-- Where the repair is in no string, the reader is in none. -/
theorem string_eq_none (h : Tracks n s)
    (hMode : ∀ isKey escaped, s.mode ≠ .string isKey escaped) : n.string = none := by
  rw [Option.eq_none_iff_forall_ne_some]
  intro escaped hString
  obtain ⟨isKey, hInside⟩ := (h.string escaped).mp hString
  exact hMode isKey escaped hInside

theorem string_of_outside (h : Tracks n s) (hMode : s.mode = .outside) : n.string = none :=
  h.string_eq_none (by simp [hMode])

theorem string_of_token (h : Tracks n s) {token : List Char} (hMode : s.mode = .scalar token) :
    n.string = none :=
  h.string_eq_none (by simp [hMode])

/-- Outside of strings and tokens both know the containers. -/
theorem of_act (hStack : n.stack = base.stack) (hString : n.string = none)
    (hMode : base.mode = .outside) (hAct : Act base c (.more next)) (hRead : n.step? c = some n') :
    Tracks n' next := by
  -- outside strings and tokens both sides change their stack by the same bracket, or not at all
  cases hAct with
  | opens b expectsKey hChar =>
    rw [hChar, Nesting.step?_opening hString] at hRead
    cases hRead
    exact .of_outside (by rw [hStack]; rfl) rfl rfl hMode
  | closes hChar hInner =>
    rw [Nesting.eq_of_step?_isClosing hString hChar hRead]
    exact .of_outside (by rw [hStack]; rfl) rfl rfl hMode
  | quotes isKey hChar =>
    rw [hChar, Nesting.step?_quote hString] at hRead
    cases hRead
    exact ⟨hStack, by simp, by simp⟩
  | passes expectsKey hBracket hOpen hQuote hChar =>
    rw [Nesting.step?_plain hString hBracket hOpen hQuote] at hRead
    cases hRead
    refine .of_outside hStack rfl ?_ hMode
    rcases hChar with hBreak | hEmpty
    · simp [hBreak]
    · simp [hStack, hEmpty]
  | begins hChar hInner =>
    have hToken : isBreak c = false ∧ opens c = false := by
      simpa [isTokenChar, opens, and_assoc] using hChar
    rw [Nesting.step?_token hString (by rwa [hStack]) hToken.1 hToken.2] at hRead
    cases hRead
    exact ⟨hStack, by simp, by simp⟩

/-- The reader and the repair stay in step. -/
theorem step (h : Tracks n s) (hOpen : ∀ token, s.mode = .scalar token → s.stack ≠ [])
    (hClean : n.inToken = true → opens c = false) (hStep : Step s c (.more next))
    (hRead : n.step? c = some n') : Tracks n' next := by
  -- the kinds of step a repair takes, each against what the nesting does with the character
  cases hStep with
  | inString isKey escaped hMode hChar =>
    rw [Nesting.step?_inString ((h.string escaped).mpr ⟨isKey, hMode⟩) hChar] at hRead
    cases hRead
    refine ⟨h.stack, by simp, ?_⟩
    rw [h.inToken, hMode]
    simp
  | endsKey hMode hChar =>
    rw [hChar, Nesting.step?_endString ((h.string false).mpr ⟨true, hMode⟩)] at hRead
    cases hRead
    refine ⟨h.stack, by simp, ?_⟩
    rw [h.inToken, hMode]
    simp
  | endsString hMode hChar =>
    rw [hChar, Nesting.step?_endString ((h.string false).mpr ⟨false, hMode⟩)] at hRead
    cases hRead
    refine ⟨h.stack, by simp [State.mark], ?_⟩
    rw [h.inToken, hMode]
    simp [State.mark]
  | inToken token hMode hChar =>
    have hOpens := hClean (h.inToken.mpr ⟨token, hMode⟩)
    have hStack : n.stack ≠ [] := by
      rw [h.stack]
      exact hOpen token hMode
    rw [Nesting.step?_token (h.string_of_token hMode) hStack hChar hOpens] at hRead
    cases hRead
    exact ⟨h.stack, by simp, by simp⟩
  | behindToken token hMode hChar hAct =>
    exact .of_act (by rw [h.stack, State.stack_endScalar]) (h.string_of_token hMode)
      (s.mode_endScalar token) hAct hRead
  | outside hMode hAct =>
    exact .of_act h.stack (h.string_of_outside hMode) hMode hAct hRead

/-- Where the text ends with the outermost container, nothing is left open. -/
theorem closed (h : Tracks n s) {text : List Char} (hStep : Step s c (.closed text))
    (hRead : n.step? c = some n') : n' = {} := by
  have hClosed {base : State} (hStack : n.stack = base.stack) (hString : n.string = none)
      (hAct : Act base c (.closed text)) : n' = {} := by
    cases hAct with
    | ends hChar hOuter => rw [Nesting.eq_of_step?_isClosing hString hChar hRead, hStack, hOuter]
  cases hStep with
  | behindToken token hMode hChar hAct =>
    exact hClosed (by rw [h.stack, State.stack_endScalar]) (h.string_of_token hMode) hAct
  | outside hMode hAct =>
    exact hClosed h.stack (h.string_of_outside hMode) hAct

end Tracks

/-! ## What a repair keeps -/

/-- A character outside of tokens marks the text with it, or leaves the mark where it is. -/
theorem Act.safe_cases {s next : State} {c : Char} (h : Act s c (.more next)) :
    (next.safe = next.taken ∧ next.safeStack = next.stack ∧ next.mode = s.mode) ∨
      (next.safe = s.safe ∧ next.safeStack = s.safeStack) := by
  cases h with
  | opens | closes => exact .inl ⟨rfl, rfl, rfl⟩
  | quotes | passes | begins => exact .inr ⟨rfl, rfl⟩

/-- A character marks the text with it or a token before it, or leaves the mark where it is. -/
theorem Step.safe_cases {s next : State} {c : Char} (h : Step s c (.more next)) :
    (next.safe = next.taken ∧ next.safeStack = next.stack ∧ next.mode = .outside) ∨
      (∃ token, s.mode = .scalar token ∧ next.safe = s.taken ∧ next.safeStack = s.stack) ∨
      (next.safe = s.safe ∧ next.safeStack = s.safeStack) := by
  cases h with
  | inString | endsKey | inToken => exact .inr (.inr ⟨rfl, rfl⟩)
  | endsString => exact .inl ⟨rfl, rfl, rfl⟩
  -- the break may mark the state itself; else the token just ended decides
  | behindToken token hMode hChar hAct =>
    rcases hAct.safe_cases with ⟨hSafe, hStack, hOutside⟩ | ⟨hSafe, hStack⟩
    · exact .inl ⟨hSafe, hStack, hOutside.trans (s.mode_endScalar token)⟩
    · rcases s.safe_endScalar_cases token with ⟨hEnd, hEndStack⟩ | ⟨hEnd, hEndStack⟩
      · exact .inr (.inl ⟨token, hMode, hSafe.trans hEnd, hStack.trans hEndStack⟩)
      · exact .inr (.inr ⟨hSafe.trans hEnd, hStack.trans hEndStack⟩)
  | outside hMode hAct =>
    rcases hAct.safe_cases with ⟨hSafe, hStack, hOutside⟩ | ⟨hSafe, hStack⟩
    · exact .inl ⟨hSafe, hStack, hOutside.trans hMode⟩
    · exact .inr (.inr ⟨hSafe, hStack⟩)

/-- If the text is clean and its brackets match, these containers are open behind it. -/
def LeavesOpen (t : List Char) (stack : List Bracket) : Prop :=
  Clean t → ∀ n, nesting? t = some n → n.stack = stack ∧ n.string = none

/-- The reader and the repair agree on the text so far and on what would be kept of it. -/
structure Followed (s : State) : Prop extends Settled s where
  now : Clean s.taken.reverse → ∀ n, nesting? s.taken.reverse = some n → Tracks n s
  kept : LeavesOpen s.safe.reverse s.safeStack
  safe_suffix : s.safe <:+ s.taken

namespace Followed

variable {s next : State} {c : Char} {token : List Char}

/-- Before the first character both know nothing. -/
theorem empty : Followed {} where
  toSettled := .empty
  now _ n hn := by
    cases hn
    exact .of_outside rfl rfl rfl rfl
  kept _ n hn := by
    cases hn
    exact ⟨rfl, rfl⟩
  safe_suffix := List.suffix_refl _

theorem leavesOpen_token (h : Followed s) (hMode : s.mode = .scalar token) :
    LeavesOpen s.taken.reverse s.stack := by
  intro hClean n hn
  have hTracks := h.now hClean n hn
  exact ⟨hTracks.stack, hTracks.string_of_token hMode⟩

/-- The reader takes the next character. -/
theorem exists_before (h : Followed s) (hClean : Clean (s.taken.reverse ++ [c])) {n' : Nesting}
    (hn : nesting? (s.taken.reverse ++ [c]) = some n') :
    ∃ n, Tracks n s ∧ (n.inToken = true → opens c = false) ∧ n.step? c = some n' := by
  rw [nesting?_concat, Option.bind_eq_some_iff] at hn
  obtain ⟨n, hBefore, hRead⟩ := hn
  exact ⟨n, h.now (hClean.of_prefix (List.prefix_append _ _)) n hBefore,
    hClean.opens_eq_false hBefore, hRead⟩

/-- One step keeps the reader and the repair together. -/
theorem step (h : Followed s) (hMore : s.step c = .more next) : Followed next := by
  have hStep := step_step s c
  rw [hMore] at hStep
  have hKeeps := keeps_step h.safe_suffix c
  rw [hMore] at hKeeps
  have hNow (hClean : Clean next.taken.reverse) (n' : Nesting)
      (hn : nesting? next.taken.reverse = some n') : Tracks n' next := by
    rw [hStep.taken_eq, List.reverse_cons] at hClean hn
    obtain ⟨n, hTracks, hOpens, hRead⟩ := h.exists_before hClean hn
    exact hTracks.step (fun token hMode => (h.token token hMode).1) hOpens hStep hRead
  refine ⟨h.toSettled.step hMore, hNow, ?_, hKeeps.2⟩
  -- the safe cut moves to here, to the end of the token before, or not at all
  rcases hStep.safe_cases with
    ⟨hSafe, hStack, hMode⟩ | ⟨token, hMode, hSafe, hStack⟩ | ⟨hSafe, hStack⟩
  · rw [hSafe, hStack]
    intro hClean n hn
    have hTracks := hNow hClean n hn
    exact ⟨hTracks.stack, hTracks.string_of_outside hMode⟩
  · rw [hSafe, hStack]
    exact h.leavesOpen_token hMode
  · rw [hSafe, hStack]
    exact h.kept

/-- What is left at the end of the text. -/
theorem exists_finish (h : Followed s) :
    ∃ kept stack, s.finish = kept ++ stack.map Bracket.closing ∧ kept <+: s.taken.reverse ∧
      LeavesOpen kept stack := by
  cases hMode : s.mode with
  | outside =>
    refine ⟨s.safe.reverse, s.safeStack, ?_, List.reverse_prefix.mpr h.safe_suffix, h.kept⟩
    rw [State.finish_of_outside hMode, State.cut, h.trimmed]
  | string isKey escaped =>
    refine ⟨s.safe.reverse, s.safeStack, ?_, List.reverse_prefix.mpr h.safe_suffix, h.kept⟩
    rw [State.finish_of_string hMode, State.cut, h.trimmed]
  | scalar token =>
    have hTrimmed := (h.endScalar hMode).1
    have hFinish : s.finish = (s.endScalar token).safe.reverse ++
        (s.endScalar token).safeStack.map Bracket.closing := by
      rw [State.finish, hMode]
      show (s.endScalar token).cut = _
      rw [State.cut, hTrimmed]
    rw [hFinish]
    -- a whole token is kept with its text, any other is dropped with what follows the safe cut
    rcases s.safe_endScalar_cases token with ⟨hSafe, hStack⟩ | ⟨hSafe, hStack⟩
    · rw [hSafe, hStack]
      exact ⟨_, _, rfl, List.prefix_refl _, h.leavesOpen_token hMode⟩
    · rw [hSafe, hStack]
      exact ⟨_, _, rfl, List.reverse_prefix.mpr h.safe_suffix, h.kept⟩

/-- A run ends with a beginning of the text and the brackets that close what is open behind it. -/
theorem exists_run (h : Followed s) (t : List Char) :
    ∃ kept stack, s.run t = kept ++ stack.map Bracket.closing ∧ kept <+: s.taken.reverse ++ t ∧
      LeavesOpen kept stack := by
  -- the invariant is carried step by step; a closed root ends the run before the text does
  induction t generalizing s with
  | nil =>
    rw [List.append_nil]
    exact h.exists_finish
  | cons c t ih =>
    rw [State.run]
    have hStep := step_step s c
    cases hProgress : s.step c with
    | more next =>
      rw [hProgress] at hStep
      have hRest := ih (h.step hProgress)
      rw [hStep.taken_eq, List.reverse_cons, List.append_assoc, List.singleton_append] at hRest
      exact hRest
    | closed text =>
      rw [hProgress] at hStep
      have hText := hStep.eq_of_closed
      refine ⟨text, [], by simp, by rw [hText]; exact ⟨t, by simp⟩, ?_⟩
      intro hClean n' hn
      rw [hText] at hClean hn
      obtain ⟨n, hTracks, -, hRead⟩ := h.exists_before hClean hn
      rw [hTracks.closed hStep hRead]
      exact ⟨rfl, rfl⟩

end Followed

/-! ## Balance -/

/-- The text begins with `kept`, and so does what it is repaired to. -/
def IsKept (t kept : List Char) : Prop := kept <+: t ∧ kept <+: repair t

/-- Take a text in which no token that is kept goes on with a quote or an opening bracket. What it
is repaired to is balanced exactly if every closing bracket that is kept of it matches. -/
theorem balanced_repair_iff {t : List Char} (hClean : ∀ kept, IsKept t kept → Clean kept) :
    Balanced (repair t) ↔ ∀ kept, IsKept t kept → Matched kept := by
  constructor
  · intro hBalanced kept hKept
    exact hBalanced.matched.of_prefix hKept.2
  · intro hMatched
    obtain ⟨kept, stack, hRepair, hPrefix, hOpen⟩ := Followed.empty.exists_run t
    have hKept : IsKept t kept := ⟨hPrefix, by rw [repair, hRepair]; exact List.prefix_append _ _⟩
    obtain ⟨n, hn⟩ := Option.isSome_iff_exists.mp (hMatched kept hKept)
    obtain ⟨hStack, hString⟩ := hOpen (hClean kept hKept) n hn
    have hBalanced := nesting?_closers hn hString
    rw [hStack] at hBalanced
    rw [repair, hRepair]
    exact hBalanced

/-- Behind the last value that is kept the text may be malformed. -/
theorem balanced_repair_iff_dangling :
    let t := "\x7b\"a\": [1, \"]\", x\x7by".toList
    (∀ kept, IsKept t kept → Clean kept) ∧ (∀ kept, IsKept t kept → Matched kept) ∧
      Balanced (repair t) := by
  intro t
  have hClean : Clean (repair t) := by decide
  have hMatched : Matched (repair t) := by decide
  have hKept (kept : List Char) (h : IsKept t kept) : Matched kept := hMatched.of_prefix h.2
  exact ⟨fun kept h => hClean.of_prefix h.2, hKept,
    (balanced_repair_iff fun kept h => hClean.of_prefix h.2).mpr hKept⟩

/-- A bracket of the wrong kind, one that closes nothing, and one inside a token are kept. -/
theorem not_balanced_repair :
    ¬ Balanced (repair "[1\x7d".toList) ∧ ¬ Balanced (repair "\x7d".toList) ∧
      ¬ Balanced (repair "[a\x7bb, 1".toList) := by
  refine ⟨fun h => absurd h.matched ?_, fun h => absurd h.matched ?_, fun h => absurd h.matched ?_⟩
  · decide
  · decide
  · decide

end Onboarding.Repair
