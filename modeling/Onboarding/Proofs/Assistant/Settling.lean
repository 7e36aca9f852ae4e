import Onboarding.Proofs.Assistant.Cutting
import Onboarding.Proofs.Assistant.Truncation

/-!
# Onboarding — repairing any text, and repairing it again

A text that is repaired need not be JSON, so what the repair does is said here
character by character (`Step`), without a grammar. Outside of strings, numbers and
literals a character opens or closes a container, begins a string or a token, or
changes nothing that matters (`Act`); a break behind a token ends the token first.

Repairing a text twice is repairing it once. Whatever is kept of the text is gone over
again as it was at first (`Settled.reached`), and the brackets behind it close one
container after the other (`State.run_closers`). So at every point of the way the text
that the repair would leave there is repaired to itself.

## Results

* `act_stepOutside`, `step_step` — what one character does.
* `State.run_closers` — closing what is open.
* `Settled.step` — one step keeps the repair settled.
* `repair_repair` — a repaired text is a beginning and closing brackets, and repairing
  it again changes nothing.
-/

namespace Onboarding.Repair

/-! ## What one character does -/

/-- What a character does outside of strings, numbers and literals. -/
inductive Act (s : State) (c : Char) : Progress → Prop where
  | opens (b : Bracket) (expectsKey : Bool) (hChar : c = b.opening) :
      Act s c (.more { s.take c with stack := b :: s.stack, expectsKey := expectsKey }.mark)
  /-- A bracket of either kind closes the innermost container, whichever kind it is of. -/
  | closes (hChar : isClosing c = true) (hInner : s.stack.tail ≠ []) :
      Act s c (.more { s.take c with stack := s.stack.tail, expectsKey := false }.mark)
  | ends (hChar : isClosing c = true) (hOuter : s.stack.tail = []) :
      Act s c (.closed (c :: s.taken).reverse)
  | quotes (isKey : Bool) (hChar : c = '"') :
      Act s c (.more { s.take c with mode := .string isKey false, expectsKey := false })
  | passes (expectsKey : Bool) (hBracket : isClosing c = false) (hOpen : ∀ b, c ≠ Bracket.opening b)
      (hQuote : c ≠ '"') (hChar : isBreak c = true ∨ s.stack = []) :
      Act s c (.more { s.take c with expectsKey := expectsKey })
  | begins (hChar : isTokenChar c = true) (hStack : s.stack ≠ []) :
      Act s c (.more { s.take c with mode := .scalar [c] })

/-- Outside of strings and tokens a character does one of the few things that an act can be. -/
theorem act_stepOutside (s : State) (c : Char) : Act s c (s.stepOutside c) := by
  -- the tests of `stepOutside`, in its order
  by_cases hObject : c = '{'
  · rw [State.stepOutside, if_pos hObject]
    exact .opens .object true hObject
  by_cases hArray : c = '['
  · rw [State.stepOutside, if_neg hObject, if_pos hArray]
    exact .opens .array s.expectsKey hArray
  by_cases hClose : c = '}' ∨ c = ']'
  · have hClosing : isClosing c = true := by simpa [isClosing] using hClose
    rw [State.stepOutside, if_neg hObject, if_neg hArray, if_pos hClose]
    show Act s c (if s.stack.tail.isEmpty then _ else _)
    split
    · next hOuter => exact .ends hClosing (List.isEmpty_iff.mp hOuter)
    · next hInner => exact .closes hClosing (fun hNil => hInner (List.isEmpty_iff.mpr hNil))
  have hClosing : isClosing c = false := by simpa [isClosing] using hClose
  have hOpen (b : Bracket) : c ≠ b.opening := by
    cases b with
    | object => exact hObject
    | array => exact hArray
  by_cases hQuote : c = '"'
  · rw [State.stepOutside, if_neg hObject, if_neg hArray, if_neg hClose, if_pos hQuote]
    exact .quotes _ hQuote
  rw [State.stepOutside, if_neg hObject, if_neg hArray, if_neg hClose, if_neg hQuote]
  split
  · next hComma => exact .passes _ hClosing hOpen hQuote (.inl (by simp [isBreak, hComma]))
  · next hComma =>
    split
    · next hPlain =>
      refine .passes s.expectsKey hClosing hOpen hQuote ?_
      rcases hPlain with hColon | hBlank | hEmpty
      · exact .inl (by simp [isBreak, hColon])
      · exact .inl (by simp [isBreak, hBlank])
      · exact .inr (List.isEmpty_iff.mp hEmpty)
    · next hPlain =>
      -- nothing else is left: `c` begins a token inside a bracket
      simp only [not_or, List.isEmpty_iff] at hPlain hClose
      refine .begins ?_ hPlain.2.2
      simp [isTokenChar, isBreak, hComma, hPlain, hClose, hObject, hArray, hQuote]

/-- What a character does. -/
inductive Step (s : State) (c : Char) : Progress → Prop where
  | inString (isKey escaped : Bool) (hMode : s.mode = .string isKey escaped)
      (hChar : escaped = true ∨ c ≠ '"') :
      Step s c (.more { s.take c with mode := .string isKey (!escaped && c == '\\') })
  | endsKey (hMode : s.mode = .string true false) (hChar : c = '"') :
      Step s c (.more { s.take c with mode := .outside })
  | endsString (hMode : s.mode = .string false false) (hChar : c = '"') :
      Step s c (.more { s.take c with mode := .outside }.mark)
  | inToken (token : List Char) (hMode : s.mode = .scalar token) (hChar : isBreak c = false) :
      Step s c (.more { s.take c with mode := .scalar (c :: token) })
  | behindToken (token : List Char) (hMode : s.mode = .scalar token) (hChar : isBreak c = true)
      {p : Progress} (hAct : Act (s.endScalar token) c p) : Step s c p
  | outside (hMode : s.mode = .outside) {p : Progress} (hAct : Act s c p) : Step s c p

theorem step_step (s : State) (c : Char) : Step s c (s.step c) := by
  cases hMode : s.mode with
  | outside =>
    rw [step_of_outside hMode]
    exact .outside hMode (act_stepOutside s c)
  | string isKey escaped =>
    by_cases hQuote : escaped = false ∧ c = '"'
    · obtain ⟨rfl, rfl⟩ := hQuote
      rw [State.step, hMode]
      cases isKey with
      | true => exact .endsKey hMode rfl
      | false => exact .endsString hMode rfl
    · have hChar : escaped = true ∨ c ≠ '"' := by
        cases escaped <;> simp_all
      -- an escaped character and a plain one stay in the string by one and the same step
      have hGoes : s.step c =
          .more { s.take c with mode := .string isKey (!escaped && c == '\\') } := by
        rw [State.step, hMode]
        cases escaped with
        | true => rfl
        | false =>
          by_cases hBack : c = '\\'
          · simp [hBack]
          · simp_all [State.take]
      rw [hGoes]
      exact .inString isKey escaped hMode hChar
  | scalar token =>
    rw [State.step, hMode]
    cases hBreak : isBreak c with
    | true => exact .behindToken token hMode hBreak (act_stepOutside _ c)
    | false => exact .inToken token hMode hBreak

section EndScalar

variable (s : State) (token : List Char)

@[simp] theorem State.mode_endScalar : (s.endScalar token).mode = .outside := by
  simp only [State.endScalar]
  split <;> rfl

@[simp] theorem State.taken_endScalar : (s.endScalar token).taken = s.taken := by
  simp only [State.endScalar]
  split <;> rfl

@[simp] theorem State.stack_endScalar : (s.endScalar token).stack = s.stack := by
  simp only [State.endScalar]
  split <;> rfl

/-- A token that is complete is kept, any other one is not. -/
theorem State.safe_endScalar_cases :
    ((s.endScalar token).safe = s.taken ∧ (s.endScalar token).safeStack = s.stack) ∨
      ((s.endScalar token).safe = s.safe ∧ (s.endScalar token).safeStack = s.safeStack) := by
  simp only [State.endScalar]
  split
  · exact .inl ⟨rfl, rfl⟩
  · exact .inr ⟨rfl, rfl⟩

end EndScalar

/-- Whatever it does, a character that goes on is taken. -/
theorem Act.taken_eq {s next : State} {c : Char} (h : Act s c (.more next)) :
    next.taken = c :: s.taken := by
  cases h <;> rfl

theorem Step.taken_eq {s next : State} {c : Char} (h : Step s c (.more next)) :
    next.taken = c :: s.taken := by
  cases h with
  | behindToken token hMode hChar hAct => rw [hAct.taken_eq, State.taken_endScalar]
  | outside hMode hAct => exact hAct.taken_eq
  | _ => rfl

/-- The text that ends here is the one that was taken. -/
theorem Step.eq_of_closed {s : State} {c : Char} {text : List Char} (h : Step s c (.closed text)) :
    text = s.taken.reverse ++ [c] := by
  cases h with
  | behindToken token hMode hChar hAct =>
    cases hAct
    simp
  | outside hMode hAct =>
    cases hAct
    simp

/-! ## Closing what is open -/

/-- The text ends in a character that trimming leaves. -/
def EndsFirm (taken : List Char) : Prop := ∃ c rest, taken = c :: rest ∧ Text.isBlank c = false

/-- A text that ends firmly has no blanks to lose. -/
theorem EndsFirm.trimEnd_reverse {taken : List Char} (h : EndsFirm taken) :
    Text.trimEnd taken.reverse = taken.reverse := by
  obtain ⟨c, rest, rfl, hBlank⟩ := h
  simp [Text.trimEnd, hBlank]

/-- At a point that is marked nothing is cut off. -/
theorem State.cut_of_marked {s : State} (hSafe : s.safe = s.taken) (hStack : s.safeStack = s.stack)
    (hFirm : EndsFirm s.taken) : s.cut = s.kept [] := by
  rw [cut, kept, hSafe, hStack, hFirm.trimEnd_reverse, List.append_nil]

/-- The brackets that close what is open are taken as they are. -/
theorem State.run_closers {s : State} (hMode : s.mode = .outside) (hCut : s.cut = s.kept []) :
    s.run (s.stack.map Bracket.closing) = s.kept [] := by
  induction hStack : s.stack generalizing s with
  | nil => rw [List.map_nil, run, finish_of_outside hMode, hCut]
  | cons b rest ih =>
    rw [List.map_cons, run_closing hMode, shut, hStack, List.tail_cons]
    cases rest with
    | nil => simp [kept, hStack]
    | cons b' rest =>
      -- what follows the bracket closes the containers around the innermost one
      have hFirm : EndsFirm (b.closing :: s.taken) := ⟨_, _, rfl, by cases b <;> decide⟩
      have hNext := ih (s := { s.past [b.closing] with
        stack := b' :: rest, expectsKey := false }.mark) hMode (cut_of_marked rfl rfl hFirm) rfl
      rw [List.isEmpty_cons, if_neg Bool.false_ne_true, hNext]
      simp [kept, past, read, mark, hStack]

/-- A break ends a token before it is taken itself. -/
theorem State.run_endScalar {s : State} {token : List Char} (hMode : s.mode = .scalar token)
    {c : Char} (hBreak : isBreak c = true) (rest : List Char) :
    s.run (c :: rest) = (s.endScalar token).run (c :: rest) := by
  rw [run, run, step_of_outside (s.mode_endScalar token), step, hMode]
  simp only [hBreak, if_true]

/-! ## Texts that are settled -/

/-- The text so far has led here, and what the repair would leave of it is repaired to itself. -/
structure Settled (s : State) : Prop where
  reached : ∀ rest, repair (s.taken.reverse ++ rest) = s.run rest
  trimmed : Text.trimEnd s.safe.reverse = s.safe.reverse
  cut : repair s.cut = s.cut
  token : ∀ token, s.mode = .scalar token → s.stack ≠ [] ∧ EndsFirm s.taken

namespace Settled

variable {s next : State} {c : Char} {token : List Char}

theorem empty : Settled {} where
  reached _ := rfl
  trimmed := rfl
  cut := rfl
  token _ hMode := by cases hMode

/-- Where everything read could be closed, it is repaired to itself. -/
theorem of_marked (hReached : ∀ rest, repair (s.taken.reverse ++ rest) = s.run rest)
    (hMode : s.mode = .outside) (hSafe : s.safe = s.taken) (hStack : s.safeStack = s.stack)
    (hFirm : EndsFirm s.taken) : Settled s where
  reached := hReached
  trimmed := by rw [hSafe, hFirm.trimEnd_reverse]
  cut := by
    have hCut := State.cut_of_marked hSafe hStack hFirm
    rw [hCut, State.kept, List.append_nil, hReached, State.run_closers hMode hCut, State.kept,
      List.append_nil]
  token _ hToken := by
    rw [hMode] at hToken
    cases hToken

/-- Behind a token, whether it is kept or not, what is left is repaired to itself. -/
theorem endScalar (h : Settled s) (hMode : s.mode = .scalar token) :
    Text.trimEnd (s.endScalar token).safe.reverse = (s.endScalar token).safe.reverse ∧
      repair (s.endScalar token).cut = (s.endScalar token).cut := by
  obtain ⟨hOpen, hFirm⟩ := h.token token hMode
  rcases s.safe_endScalar_cases token with ⟨hSafe, hStack⟩ | ⟨hSafe, hStack⟩
  · have hCut : (s.endScalar token).cut = (s.endScalar token).kept [] :=
      State.cut_of_marked (by simp [hSafe]) (by simp [hStack]) (by simpa using hFirm)
    refine ⟨by rw [hSafe, hFirm.trimEnd_reverse], ?_⟩
    -- a container is open, so the first of the closing brackets ends the token
    have hRun : s.run (s.stack.map Bracket.closing) =
        (s.endScalar token).run (s.stack.map Bracket.closing) := by
      cases hCons : s.stack with
      | nil => exact absurd hCons hOpen
      | cons b rest =>
        exact State.run_endScalar hMode (by cases b <;> rfl) (rest.map Bracket.closing)
    have hClosers := State.run_closers (s.mode_endScalar token) hCut
    rw [State.stack_endScalar] at hClosers
    rw [hCut]
    simp only [State.kept, List.append_nil, State.taken_endScalar, State.stack_endScalar,
      h.reached] at hClosers ⊢
    rw [hRun, hClosers]
  · refine ⟨by rw [hSafe, h.trimmed], ?_⟩
    rw [State.cut, hSafe, hStack]
    exact h.cut

/-- A character outside of tokens leaves what could be closed before, or marks the text with it. -/
theorem of_act {base : State} (hTrimmed : Text.trimEnd base.safe.reverse = base.safe.reverse)
    (hCut : repair base.cut = base.cut) (hMode : base.mode = .outside)
    (hReached : ∀ rest, repair (next.taken.reverse ++ rest) = next.run rest)
    (hAct : Act base c (.more next)) : Settled next := by
  -- an act either marks the state anew or leaves its cut as it is
  cases hAct with
  | opens b expectsKey hChar =>
    exact of_marked hReached hMode rfl rfl ⟨c, base.taken, rfl, by rw [hChar]; cases b <;> decide⟩
  | closes hChar hInner =>
    refine of_marked hReached hMode rfl rfl ⟨c, base.taken, rfl, ?_⟩
    simp only [isClosing, Bool.or_eq_true, beq_iff_eq] at hChar
    rcases hChar with rfl | rfl <;> decide
  | quotes isKey hChar => exact ⟨hReached, hTrimmed, hCut, fun _ hToken => by cases hToken⟩
  | passes expectsKey hBracket hOpen hQuote hChar =>
    refine ⟨hReached, hTrimmed, hCut, fun _ hToken => ?_⟩
    rw [show base.mode = _ from hToken] at hMode
    cases hMode
  | begins hChar hStack =>
    exact ⟨hReached, hTrimmed, hCut, fun _ _ => ⟨hStack, c, base.taken, rfl,
      isBlank_of_isTokenChar hChar⟩⟩

/-- One step keeps the repair settled. -/
theorem step (h : Settled s) (hMore : s.step c = .more next) : Settled next := by
  have hStep := step_step s c
  rw [hMore] at hStep
  -- what was repaired from the start is what the run from here gives, whatever follows
  have hReached (rest : List Char) : repair (next.taken.reverse ++ rest) = next.run rest := by
    rw [hStep.taken_eq, List.reverse_cons, List.append_assoc, h.reached, List.singleton_append,
      State.run_cons hMore]
  cases hStep with
  | inString isKey escaped hMode hChar =>
    exact ⟨hReached, h.trimmed, h.cut, fun _ hToken => by cases hToken⟩
  | endsKey hMode hChar => exact ⟨hReached, h.trimmed, h.cut, fun _ hToken => by cases hToken⟩
  | endsString hMode hChar =>
    exact of_marked hReached rfl rfl rfl ⟨c, s.taken, rfl, by rw [hChar]; decide⟩
  | inToken token hMode hChar =>
    have hBlank : Text.isBlank c = false := by
      simp only [isBreak, Bool.or_eq_false_iff] at hChar
      exact hChar.2
    exact ⟨hReached, h.trimmed, h.cut,
      fun _ _ => ⟨(h.token token hMode).1, c, s.taken, rfl, hBlank⟩⟩
  | behindToken token hMode hChar hAct =>
    obtain ⟨hTrimmed, hCut⟩ := h.endScalar hMode
    exact of_act hTrimmed hCut (s.mode_endScalar token) hReached hAct
  | outside hMode hAct => exact of_act h.trimmed h.cut hMode hReached hAct

/-- What is left at the end of the text is repaired to itself. -/
theorem finish (h : Settled s) : repair s.finish = s.finish := by
  cases hMode : s.mode with
  | outside =>
    rw [State.finish_of_outside hMode]
    exact h.cut
  | string isKey escaped =>
    rw [State.finish_of_string hMode]
    exact h.cut
  | scalar token =>
    have hCut := (h.endScalar hMode).2
    rw [State.finish, hMode]
    exact hCut

/-- A text that is settled so far is settled however it goes on. -/
theorem run (h : Settled s) (t : List Char) : repair (s.run t) = s.run t := by
  induction t generalizing s with
  | nil => exact h.finish
  | cons c t ih =>
    rw [State.run]
    cases hStep : s.step c with
    | more next => exact ih (h.step hStep)
    | closed text =>
      -- the text up to here ends at the same bracket again
      have hText := step_step s c
      rw [hStep] at hText
      show repair text = text
      rw [hText.eq_of_closed, h.reached, State.run_of_closed hStep]
      exact hText.eq_of_closed

end Settled

/-- However a text is malformed, what it is repaired to is a beginning of it and closing brackets,
and repairing that again changes nothing. -/
theorem repair_repair (t : List Char) :
    (∃ kept closers, repair t = kept ++ closers ∧ kept <+: t ∧ ∀ c ∈ closers, c = '}' ∨ c = ']') ∧
      repair (repair t) = repair t := by
  obtain ⟨kept, closers, hText, hKept, hClosers⟩ := exists_repair t
  refine ⟨⟨kept, closers, hText, hKept, fun c hc => ?_⟩, Settled.empty.run t⟩
  simpa [isClosing] using hClosers c hc

-- brackets of the wrong kind, a quote inside a token and a string that is not closed
example : repair "[1\"\x7d, \"a\" \x7b] \"".toList = "[1\"\x7d".toList := by rfl

end Onboarding.Repair
