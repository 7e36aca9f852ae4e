import Onboarding.Proofs.Assistant.Framing
import Onboarding.Proofs.Assistant.Scanning

/-!
# Onboarding — what is cut off a stream

Whatever a stream holds, its marker, its fence and its prose are cut off in
pieces: what is left is a stretch of the stream before which no brace opens
(`Leads`). The repair then cuts off an end and puts closing brackets in its place
(`Repair.exists_repair`).

A stream that was cut off inside its object has no brace to stop at, and its object
is cut out whole (`outerObject?_of_final`). Only a fence that is opened before the
object and closed behind can cut off more (`Final.unfence`).

## Results

* `leads_outerObject?` — what the object of a stream is cut out of.
* `Final.unfence` — where no fence is closed, only blanks are cut off the object.
* `outerObject?_of_final` — an object that closes no brace is cut out whole.
* `Repair.exists_repair` — a repaired text is a beginning of the text and
  closing brackets.
* `Repair.repair_append_blanks` — blanks at the end of a text make no difference to its
  repair.
-/

namespace Onboarding

namespace Framing

/-! ## Stretches before which no brace opens -/

/-- The piece is a stretch of the text before which no brace opens. -/
def Leads (piece text : List Char) : Prop :=
  ∃ front back, text = front ++ piece ++ back ∧ '{' ∉ front

section Leading

variable {piece text : List Char}

/-- A text is a stretch of itself. -/
theorem Leads.refl (text : List Char) : Leads text text := ⟨[], [], by simp, by simp⟩

/-- A stretch of a stretch is one of the whole text. -/
theorem Leads.trans {whole : List Char} (h : Leads piece text) (hText : Leads text whole) :
    Leads piece whole := by
  obtain ⟨front, back, rfl, hFront⟩ := h
  obtain ⟨front', back', rfl, hFront'⟩ := hText
  exact ⟨front' ++ front, back ++ back', by simp, by simp [hFront, hFront']⟩

/-- What stands behind a text without an opening brace is a stretch. -/
theorem leads_of_append_right {u : List Char} (v : List Char) (hu : '{' ∉ u) :
    Leads v (u ++ v) := ⟨u, [], by simp, hu⟩

/-- Every beginning of a text is a stretch. -/
theorem leads_of_append_left (u v : List Char) : Leads u (u ++ v) := ⟨[], v, by simp, by simp⟩

/-- Dropping the blanks in front leaves a stretch, as no brace is a blank. -/
theorem leads_trimStart (text : List Char) : Leads (Text.trimStart text) text := by
  obtain ⟨blanks, hText, hBlank⟩ := Text.exists_trimStart text
  have hLeads := leads_of_append_right (Text.trimStart text)
    (fun hc => absurd (hBlank _ hc) (by decide))
  rwa [← hText] at hLeads

/-- Dropping the blanks at the end leaves a stretch. -/
theorem leads_trimEnd (text : List Char) : Leads (Text.trimEnd text) text := by
  obtain ⟨blanks, hText, -⟩ := Text.exists_trimEnd text
  have hLeads := leads_of_append_left (Text.trimEnd text) blanks
  rwa [← hText] at hLeads

theorem leads_trim (text : List Char) : Leads (Text.trim text) text :=
  (leads_trimStart _).trans (leads_trimEnd text)

/-- What stands before the mark of the end is a stretch. -/
theorem leads_splitMark (text : List Char) : Leads (splitMark text).1 text := by
  have hTrim := leads_trimEnd text
  have hTail {tail body : List Char} (h : Text.cutTail? tail (Text.trimEnd text) = some body) :
      Leads body text := by
    rw [Text.cutTail?_eq_some.mp h] at hTrim
    exact (leads_of_append_left body tail).trans hTrim
  simp only [splitMark]
  split
  · next h => exact hTail h
  · split
    · next h => exact hTail h
    · exact hTrim

/-- The line that a fence opens with is dropped only if no brace opens in it. -/
theorem leads_dropTagLine (text : List Char) : Leads (dropTagLine text) text := by
  unfold dropTagLine
  split
  · next line rest hSplit =>
    split
    · exact .refl text
    · next hLine =>
      rw [Text.splitFirst?_eq_some hSplit]
      exact leads_of_append_right rest (by simpa using hLine)
  · exact .refl text

/-- What stands before the closing fence is a stretch. -/
theorem leads_dropClosingFence (text : List Char) : Leads (dropClosingFence text) text := by
  unfold dropClosingFence
  split
  · next inner rest hSplit =>
    split
    · exact .refl text
    · rw [Text.splitLast?_eq_some hSplit, List.append_assoc]
      exact leads_of_append_left inner _
  · exact .refl text

/-- Taking a fence off leaves a stretch. -/
theorem leads_unfence (text : List Char) : Leads (unfence text) text := by
  have hTrim := leads_trim text
  simp only [unfence]
  split
  · exact hTrim
  · split
    · exact hTrim
    · next before after hSplit =>
      split
      · exact hTrim
      · next hBefore =>
        -- the fence is opened before any brace
        have hMark : '{' ∉ fenceMark := by decide
        have hAfter : Leads after (Text.trim text) := by
          rw [Text.splitFirst?_eq_some hSplit]
          exact leads_of_append_right after (by simp [hMark, hBefore])
        exact (leads_trim _).trans ((leads_dropClosingFence _).trans
          ((leads_dropTagLine after).trans (hAfter.trans hTrim)))

/-- What stands from the first opening brace of a text on. -/
theorem leads_dropWhile (text : List Char) : Leads (text.dropWhile (· ≠ '{')) text := by
  have hNe : '{' ∉ text.takeWhile (· ≠ '{') := by
    intro hMem
    have hAll := List.all_eq_true.mp (List.all_takeWhile (l := text) (p := (· ≠ '{'))) _ hMem
    simp at hAll
  have hLeads := leads_of_append_right (text.dropWhile (· ≠ '{')) hNe
  rwa [List.takeWhile_append_dropWhile] at hLeads

/-- An object that is found is a stretch, and it begins with the first brace of the text. -/
theorem leads_outerObject? (h : outerObject? text = some piece) :
    Leads piece text ∧ piece.head? = some '{' := by
  have hDrop := leads_dropWhile text
  unfold outerObject? at h
  split at h
  · simp at h
  · next s hNonempty =>
    -- the first character that is not dropped is an opening brace
    have hHead : (text.dropWhile (· ≠ '{')).head? = some '{' := by
      cases hText : text.dropWhile (· ≠ '{') with
      | nil => exact absurd hText hNonempty
      | cons c rest =>
        have hNot := List.head?_dropWhile_not (· ≠ '{') text
        rw [hText] at hNot
        simpa using hNot
    split at h
    · next inner rest hSplit =>
      rw [Option.some.injEq] at h
      have hText := Text.splitLast?_eq_some hSplit
      rw [h] at hText
      refine ⟨?_, ?_⟩
      · rw [hText] at hDrop
        exact (leads_of_append_left piece rest).trans hDrop
      · rw [hText] at hHead
        cases piece with
        | nil => exact absurd h (by simp)
        | cons c piece => exact hHead
    · rw [Option.some.injEq] at h
      rw [← h]
      exact ⟨hDrop, hHead⟩

end Leading

/-! ## Objects that close no brace -/

/-- The marker of a stream that was cut off is found behind any text. -/
theorem splitMark_cutMark (body : List Char) :
    splitMark (body ++ cutMark) = (body, .truncated) := by
  have hNonempty : body ++ cutMark ≠ [] := List.append_ne_nil_of_right_ne_nil body (by decide)
  have hLast : Text.isBlank ((body ++ cutMark).getLast hNonempty) = false := by
    rw [List.getLast_append_of_ne_nil _ (by decide)]
    decide
  have hTrim : Text.trimEnd (body ++ cutMark) = body ++ cutMark := by
    have hAppend := Text.trimEnd_append hNonempty hLast []
    rwa [List.append_nil, show Text.trimEnd [] = [] from rfl, List.append_nil] at hAppend
  simp only [splitMark, hTrim, Text.cutTail?_eq_some.mpr rfl]

/-- The text ends in the object, before which no brace opens. -/
def Final (object text : List Char) : Prop := ∃ front, text = front ++ object ∧ '{' ∉ front

section Open

variable {object text : List Char}

/-- A front without an opening brace can be taken off. -/
theorem Final.of_append_right (hOpen : object.head? = some '{') {u v : List Char}
    (h : Final object (u ++ v)) (hu : '{' ∉ u) : Final object v := by
  obtain ⟨front, hEq, hFront⟩ := h
  rcases List.append_eq_append_iff.mp hEq with ⟨rest, rfl, rfl⟩ | ⟨rest, rfl, hRest⟩
  · -- the piece ends inside the front
    exact ⟨rest, rfl, fun hc => hFront (List.mem_append_right u hc)⟩
  · -- the piece would end inside the object, behind its opening brace
    cases rest with
    | nil => exact ⟨[], hRest.symm, by simp⟩
    | cons c rest =>
      rw [hRest, List.cons_append, List.head?_cons, Option.some.injEq] at hOpen
      rw [hOpen] at hu
      exact absurd (by simp) hu

/-- Blanks in front may be dropped, since the object begins with none. -/
theorem Final.trimStart (hOpen : object.head? = some '{') (h : Final object text) :
    Final object (Text.trimStart text) := by
  obtain ⟨blanks, hEq, hBlank⟩ := Text.exists_trimStart text
  rw [hEq] at h
  exact h.of_append_right hOpen fun hc => absurd (hBlank _ hc) (by decide)

/-- No trimming reaches over an opening brace. -/
theorem trimEnd_front (front inner : List Char) :
    Text.trimEnd (front ++ '{' :: inner) = front ++ '{' :: Text.trimEnd inner := by
  have hNonempty : front ++ ['{'] ≠ [] := by simp
  have hLast : Text.isBlank ((front ++ ['{']).getLast hNonempty) = false := by
    rw [List.getLast_concat]
    decide
  have hTrim := Text.trimEnd_append hNonempty hLast inner
  rwa [List.append_assoc, List.append_assoc, List.singleton_append, List.singleton_append] at hTrim

/-- An opening brace stays when the blanks at the end are dropped. -/
theorem trimEnd_cons_open (inner : List Char) :
    Text.trimEnd ('{' :: inner) = '{' :: Text.trimEnd inner := trimEnd_front [] inner

/-- Blanks at the end of the text are blanks at the end of the object. -/
theorem Final.trimEnd (hOpen : object.head? = some '{') (h : Final object text) :
    Final (Text.trimEnd object) (Text.trimEnd text) := by
  obtain ⟨front, rfl, hFront⟩ := h
  obtain ⟨inner, rfl⟩ := List.head?_eq_some_iff.mp hOpen
  exact ⟨front, by rw [trimEnd_front, trimEnd_cons_open], hFront⟩

/-- An object begins alike when the blanks at its end are dropped. -/
theorem head?_trimEnd (hOpen : object.head? = some '{') :
    (Text.trimEnd object).head? = some '{' := by
  obtain ⟨inner, rfl⟩ := List.head?_eq_some_iff.mp hOpen
  rw [trimEnd_cons_open, List.head?_cons]

/-- With the blanks around the text those at the end of the object are dropped. -/
theorem Final.trim (hOpen : object.head? = some '{') (h : Final object text) :
    Final (Text.trimEnd object) (Text.trim text) :=
  (h.trimEnd hOpen).trimStart (head?_trimEnd hOpen)

/-- A first line without an opening brace is in front of the object. -/
theorem Final.dropTagLine (hOpen : object.head? = some '{') (h : Final object text) :
    Final object (dropTagLine text) := by
  unfold Framing.dropTagLine
  split
  · next line rest hSplit =>
    split
    · exact h
    · next hLine =>
      rw [Text.splitFirst?_eq_some hSplit] at h
      exact h.of_append_right hOpen (by simpa using hLine)
  · exact h

/-- No fence that is opened before the first brace of the text has its mark again behind. -/
def Unclosed (text : List Char) : Prop :=
  ∀ before after, text = before ++ fenceMark ++ after → '{' ∉ before → ¬ fenceMark <:+: after

/-- What is a stretch of a text without a fence has none either. -/
theorem Unclosed.of_leads {piece : List Char} (h : Unclosed text) (hLeads : Leads piece text) :
    Unclosed piece := by
  obtain ⟨front, back, rfl, hFront⟩ := hLeads
  rintro before after rfl hBefore hAfter
  refine h (front ++ before) (after ++ back) (by simp) (by simp [hFront, hBefore]) ?_
  exact hAfter.trans (List.prefix_append after back).isInfix

/-- Without a fence there is none to drop. -/
theorem dropClosingFence_eq_self (h : ¬ fenceMark <:+: text) : dropClosingFence text = text := by
  unfold dropClosingFence
  split
  · next inner rest hSplit =>
    exact absurd ⟨inner, rest, (Text.splitLast?_eq_some hSplit).symm⟩ h
  · rfl

/-- Dropping the line of the tag leaves an end of the text. -/
theorem dropTagLine_suffix (text : List Char) : dropTagLine text <:+ text := by
  unfold dropTagLine
  split
  · next line rest hSplit =>
    split
    · exact List.suffix_refl text
    · exact ⟨line ++ ['\n'], (Text.splitFirst?_eq_some hSplit).symm⟩
  · exact List.suffix_refl text

/-- Where no fence is closed, the object is left at the end of the text. -/
theorem Final.unfence (hOpen : object.head? = some '{') (hUnclosed : Unclosed text)
    (h : Final object text) : Final (Text.trimEnd object) (unfence text) := by
  have hTrim := h.trim hOpen
  have hHead := head?_trimEnd hOpen
  simp only [Framing.unfence]
  split
  · exact hTrim
  · split
    · exact hTrim
    · next before after hSplit =>
      split
      · exact hTrim
      · next hBefore =>
        -- the fence is opened in front of the object, and its mark does not stand behind
        have hText := Text.splitFirst?_eq_some hSplit
        have hMark : '{' ∉ fenceMark := by decide
        have hOnce := hUnclosed.of_leads (leads_trim text) before after hText hBefore
        have hKeep := dropClosingFence_eq_self fun hMore =>
          hOnce (hMore.trans (dropTagLine_suffix after).isInfix)
        rw [hText] at hTrim
        have hAfter := hTrim.of_append_right hHead (by simp [hMark, hBefore])
        have hLast := (hAfter.dropTagLine hHead).trim hHead
        rw [Text.trimEnd_trimEnd] at hLast
        rwa [hKeep]

/-- An object that closes no brace is cut out whole. -/
theorem outerObject?_of_final (hOpen : object.head? = some '{') (hClose : '}' ∉ object)
    (h : Final object text) : outerObject? text = some object := by
  obtain ⟨front, rfl, hFront⟩ := h
  unfold outerObject?
  rw [dropWhile_front hFront hOpen]
  split
  · simp at hOpen
  · split
    · next inner rest hSplit =>
      rw [Text.splitLast?_eq_some hSplit] at hClose
      exact absurd (by simp) hClose
    · rfl

end Open

end Framing

/-! ## The end a repair cuts off -/

namespace Repair

/-- The character is taken into the text, and the point at which the text could last be closed is
inside the text. -/
def Progress.Keeps (s : State) (c : Char) : Progress → Prop
  | .more next => next.taken = c :: s.taken ∧ next.safe <:+ next.taken
  | .closed text => text = (c :: s.taken).reverse

/-- Outside strings and tokens every character is taken into the text. -/
theorem keeps_stepOutside {s : State} (hSafe : s.safe <:+ s.taken) (c : Char) :
    (s.stepOutside c).Keeps s c := by
  have hTake : s.safe <:+ c :: s.taken := hSafe.trans (List.suffix_cons c s.taken)
  simp only [State.stepOutside]
  -- brackets mark the text that ends with them, all else leaves the mark where it is
  split
  · exact ⟨rfl, List.suffix_refl _⟩
  · split
    · exact ⟨rfl, List.suffix_refl _⟩
    · split
      · split
        · exact rfl
        · exact ⟨rfl, List.suffix_refl _⟩
      · split
        · exact ⟨rfl, hTake⟩
        · split
          · exact ⟨rfl, hTake⟩
          · split
            · exact ⟨rfl, hTake⟩
            · exact ⟨rfl, hTake⟩

/-- Ending a token takes nothing, and the mark is still inside what was taken. -/
theorem safe_endScalar {s : State} (hSafe : s.safe <:+ s.taken) (token : List Char) :
    (s.endScalar token).taken = s.taken ∧
      (s.endScalar token).safe <:+ (s.endScalar token).taken := by
  simp only [State.endScalar]
  split
  · exact ⟨rfl, List.suffix_refl _⟩
  · exact ⟨rfl, hSafe⟩

/-- Every character is taken, and the mark never leaves what was taken. -/
theorem keeps_step {s : State} (hSafe : s.safe <:+ s.taken) (c : Char) : (s.step c).Keeps s c := by
  have hTake : s.safe <:+ c :: s.taken := hSafe.trans (List.suffix_cons c s.taken)
  rw [State.step]
  split
  · exact ⟨rfl, hTake⟩
  · split
    · exact ⟨rfl, hTake⟩
    · split
      · split
        · exact ⟨rfl, hTake⟩
        · exact ⟨rfl, List.suffix_refl _⟩
      · exact ⟨rfl, hTake⟩
  · next token _ =>
    split
    · obtain ⟨hTaken, hEnd⟩ := safe_endScalar hSafe token
      have hKeeps := keeps_stepOutside hEnd c
      unfold Progress.Keeps at hKeeps ⊢
      rwa [hTaken] at hKeeps
    · exact ⟨rfl, hTake⟩
  · exact keeps_stepOutside hSafe c

/-- Whether a character is one that closes a container. -/
def isClosing (c : Char) : Bool := c == '}' || c == ']'

/-- A cut leaves a beginning of what was taken, and closes what is open there. -/
theorem exists_cut {s : State} (hSafe : s.safe <:+ s.taken) :
    ∃ kept closers, s.cut = kept ++ closers ∧ kept <+: s.taken.reverse ∧
      ∀ c ∈ closers, isClosing c = true := by
  -- what is kept ends at the last point at which the text could be closed
  refine ⟨Text.trimEnd s.safe.reverse, s.safeStack.map Bracket.closing, rfl, ?_, ?_⟩
  · obtain ⟨blanks, hTrim, -⟩ := Text.exists_trimEnd s.safe.reverse
    exact List.IsPrefix.trans ⟨blanks, hTrim.symm⟩ (List.reverse_prefix.mpr hSafe)
  · intro c hc
    obtain ⟨b, -, rfl⟩ := List.mem_map.mp hc
    cases b <;> rfl

theorem exists_finish {s : State} (hSafe : s.safe <:+ s.taken) :
    ∃ kept closers, s.finish = kept ++ closers ∧ kept <+: s.taken.reverse ∧
      ∀ c ∈ closers, isClosing c = true := by
  cases hMode : s.mode with
  | outside =>
    rw [State.finish_of_outside hMode]
    exact exists_cut hSafe
  | string isKey escaped =>
    rw [State.finish_of_string hMode]
    exact exists_cut hSafe
  | scalar token =>
    obtain ⟨hTaken, hEnd⟩ := safe_endScalar hSafe token
    have hCut := exists_cut hEnd
    rw [hTaken] at hCut
    rw [State.finish, hMode]
    exact hCut

/-- A run ends with a beginning of the text and closing brackets. -/
theorem exists_run (t : List Char) {s : State} (hSafe : s.safe <:+ s.taken) :
    ∃ kept closers, s.run t = kept ++ closers ∧ kept <+: s.taken.reverse ++ t ∧
      ∀ c ∈ closers, isClosing c = true := by
  induction t generalizing s with
  | nil =>
    rw [List.append_nil]
    exact exists_finish hSafe
  | cons c t ih =>
    have hKeeps := keeps_step hSafe c
    rw [State.run]
    cases hStep : s.step c with
    | more next =>
      rw [hStep] at hKeeps
      obtain ⟨hTaken, hNext⟩ := hKeeps
      have hRest := ih hNext
      rw [hTaken, List.reverse_cons, List.append_assoc, List.singleton_append] at hRest
      exact hRest
    | closed text =>
      -- the value is complete here, and what stands behind it is dropped
      rw [hStep] at hKeeps
      refine ⟨text, [], by simp, ?_, by simp⟩
      rw [show text = (c :: s.taken).reverse from hKeeps]
      exact ⟨t, by simp⟩

/-- A repaired text is a beginning of the text and closing brackets. -/
theorem exists_repair (t : List Char) :
    ∃ kept closers, repair t = kept ++ closers ∧ kept <+: t ∧ ∀ c ∈ closers, isClosing c = true :=
  exists_run t (s := {}) (List.suffix_refl _)

/-! ## Blanks at the end -/

section Blanks

variable {c : Char}

/-- A blank outside is taken and changes nothing else. -/
theorem stepOutside_isBlank (hBlank : Text.isBlank c = true) (s : State) :
    s.stepOutside c = .more (s.take c) := by
  have hNe (d : Char) (hd : Text.isBlank d = false) : c ≠ d := by
    rintro rfl
    rw [hd] at hBlank
    exact absurd hBlank (by decide)
  simp [State.stepOutside, hBlank, hNe '{' (by decide), hNe '[' (by decide), hNe '}' (by decide),
    hNe ']' (by decide), hNe '"' (by decide), hNe ',' (by decide)]

/-- Behind a blank a repair ends as it would end before it, and no token goes on. -/
theorem step_isBlank (hBlank : Text.isBlank c = true) (s : State) :
    ∃ next, s.step c = .more next ∧ next.finish = s.finish := by
  cases hMode : s.mode with
  | outside =>
    refine ⟨s.take c, ?_, ?_⟩
    · rw [step_of_outside hMode, stepOutside_isBlank hBlank]
    · rw [State.finish_of_outside hMode, State.finish_of_outside (s := s.take c) hMode]
      rfl
  | string isKey escaped =>
    have hNe : c ≠ '\\' ∧ c ≠ '"' := by
      constructor <;>
      · rintro rfl
        exact absurd hBlank (by decide)
    rw [State.finish_of_string hMode]
    cases escaped with
    | true => exact ⟨{ s.take c with mode := .string isKey false }, by rw [State.step, hMode], rfl⟩
    | false =>
      refine ⟨s.take c, by simp [State.step, hMode, hNe], ?_⟩
      exact State.finish_of_string (s := s.take c) hMode
  | scalar token =>
    -- the blank ends the token, as the end of the text would
    have hBreak : isBreak c = true := by simp [isBreak, hBlank]
    have hOutside : (s.endScalar token).mode = .outside := by
      simp only [State.endScalar]
      split <;> rfl
    refine ⟨(s.endScalar token).take c, ?_, ?_⟩
    · simp only [State.step, hMode, hBreak, if_true, stepOutside_isBlank hBlank]
    · rw [State.finish_of_outside (s := (s.endScalar token).take c) hOutside, State.finish, hMode]
      rfl

/-- Blanks at the end are cut off. -/
theorem run_blanks {blanks : List Char} (hBlanks : ∀ c ∈ blanks, Text.isBlank c = true)
    (s : State) : s.run blanks = s.finish := by
  induction blanks generalizing s with
  | nil => rfl
  | cons c blanks ih =>
    obtain ⟨next, hStep, hFinish⟩ := step_isBlank (hBlanks c List.mem_cons_self) s
    rw [State.run_cons hStep, ih (fun d hd => hBlanks d (List.mem_cons_of_mem _ hd)), hFinish]

/-- Blanks behind a text make no difference to a run. -/
theorem run_append_blanks {blanks : List Char} (hBlanks : ∀ c ∈ blanks, Text.isBlank c = true)
    (t : List Char) (s : State) : s.run (t ++ blanks) = s.run t := by
  induction t generalizing s with
  | nil => exact run_blanks hBlanks s
  | cons c t ih =>
    rw [List.cons_append, State.run, State.run]
    cases s.step c with
    | more next => exact ih next
    | closed text => rfl

/-- Blanks at the end of a text make no difference to its repair. -/
theorem repair_append_blanks {blanks : List Char} (hBlanks : ∀ c ∈ blanks, Text.isBlank c = true)
    (t : List Char) : repair (t ++ blanks) = repair t :=
  run_append_blanks hBlanks t {}

theorem repair_trimEnd (t : List Char) : repair (Text.trimEnd t) = repair t := by
  obtain ⟨blanks, hText, hBlanks⟩ := Text.exists_trimEnd t
  have hRepair := repair_append_blanks hBlanks (Text.trimEnd t)
  rw [← hText] at hRepair
  exact hRepair.symm

end Blanks

end Repair

end Onboarding
