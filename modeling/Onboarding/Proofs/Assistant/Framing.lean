import Onboarding.Assistant.Assembly

/-!
# Onboarding — the framed object is found

A stream may put prose and an opened code fence before its object, and a closed
fence, prose and a marker behind it. Whatever the object holds, fences, braces
and markers in its strings included, it is cut out unchanged, as long as what
stands before it opens no brace and what stands behind it closes none.

One invariant carries all three cuts: a text is `Around` an object when it is
the object with such a front and such a back. Every cut takes a piece without
an opening brace off the front or one without a closing brace off the back, so
it cannot reach into the object.

## Results

* `Around.of_append_right`, `Around.of_append_left` — what a cut may take off.
* `Around.splitMark`, `Around.unfence` — the cuts keep the invariant.
* `outerObject?_of_around` — the last cut leaves exactly the object.
* `finish_of_framed` — an assembly reads the framed object, however it was cut
  into chunks.
-/

namespace Onboarding.Framing

/-! ## Texts around an object -/

/-- The text is the object with a front that opens no brace and a back that closes none. -/
def Around (object text : List Char) : Prop :=
  ∃ front back, text = front ++ object ++ back ∧ '{' ∉ front ∧ '}' ∉ back

section Cuts

variable {object : List Char}

/-- A front without an opening brace can be taken off. -/
theorem Around.of_append_right (hOpen : object.head? = some '{') {u v : List Char}
    (h : Around object (u ++ v)) (hu : '{' ∉ u) : Around object v := by
  obtain ⟨front, back, hEq, hFront, hBack⟩ := h
  rw [List.append_assoc, List.append_eq_append_iff] at hEq
  rcases hEq with ⟨rest, rfl, rfl⟩ | ⟨rest, rfl, hRest⟩
  · -- the piece ends inside the front
    have hMem : '{' ∉ rest := fun hc => hFront (List.mem_append_right u hc)
    exact ⟨rest, back, (List.append_assoc ..).symm, hMem, hBack⟩
  · -- the piece would end inside the object, behind its opening brace
    cases rest with
    | nil => exact ⟨[], back, by simpa using hRest.symm, by simp, hBack⟩
    | cons c rest =>
      obtain ⟨inner, rfl⟩ := List.head?_eq_some_iff.mp hOpen
      rw [List.cons_append, List.cons_append, List.cons.injEq] at hRest
      rw [← hRest.1] at hu
      exact absurd (by simp) hu

/-- A back without a closing brace can be taken off. -/
theorem Around.of_append_left (hClose : object.getLast? = some '}') {u v : List Char}
    (h : Around object (u ++ v)) (hv : '}' ∉ v) : Around object u := by
  obtain ⟨front, back, hEq, hFront, hBack⟩ := h
  rw [List.append_eq_append_iff] at hEq
  rcases hEq with ⟨rest, hRest, rfl⟩ | ⟨rest, rfl, rfl⟩
  · -- the piece would begin inside the object, before its closing brace
    rcases List.eq_nil_or_concat rest with rfl | ⟨rest, c, rfl⟩
    · exact ⟨front, [], by simpa using hRest.symm, hFront, by simp⟩
    · obtain ⟨inner, rfl⟩ := List.getLast?_eq_some_iff.mp hClose
      rw [← List.append_assoc, List.concat_eq_append, ← List.append_assoc] at hRest
      obtain ⟨-, hLast⟩ := List.append_inj' hRest rfl
      rw [List.singleton_inj] at hLast
      subst hLast
      exact absurd (by simp) hv
  · -- the piece begins inside the back
    have hMem : '}' ∉ rest := fun hc => hBack (List.mem_append_left v hc)
    exact ⟨front, rest, rfl, hFront, hMem⟩

variable {text : List Char}

/-! ## The cuts keep the object -/

theorem Around.trimStart (hOpen : object.head? = some '{') (h : Around object text) :
    Around object (Text.trimStart text) := by
  obtain ⟨blanks, hEq, hBlank⟩ := Text.exists_trimStart text
  rw [hEq] at h
  exact h.of_append_right hOpen fun hc => absurd (hBlank _ hc) (by decide)

theorem Around.trimEnd (hClose : object.getLast? = some '}') (h : Around object text) :
    Around object (Text.trimEnd text) := by
  obtain ⟨blanks, hEq, hBlank⟩ := Text.exists_trimEnd text
  rw [hEq] at h
  exact h.of_append_left hClose fun hc => absurd (hBlank _ hc) (by decide)

theorem Around.trim (hOpen : object.head? = some '{') (hClose : object.getLast? = some '}')
    (h : Around object text) : Around object (Text.trim text) :=
  (h.trimEnd hClose).trimStart hOpen

/-- The marker is behind the object. -/
theorem Around.splitMark (hClose : object.getLast? = some '}') (h : Around object text) :
    Around object (splitMark text).1 := by
  have hTrim := h.trimEnd hClose
  simp only [Framing.splitMark]
  -- neither marker holds a brace, so cutting one off cuts off a piece of the back
  cases hCut : Text.cutTail? cutMark (Text.trimEnd text) with
  | some body =>
    rw [Text.cutTail?_eq_some.mp hCut] at hTrim
    exact hTrim.of_append_left hClose (by decide)
  | none =>
    cases hWhole : Text.cutTail? wholeMark (Text.trimEnd text) with
    | some body =>
      rw [Text.cutTail?_eq_some.mp hWhole] at hTrim
      exact hTrim.of_append_left hClose (by decide)
    | none => exact hTrim

/-- A first line without an opening brace is in front of the object. -/
theorem Around.dropTagLine (hOpen : object.head? = some '{') (h : Around object text) :
    Around object (dropTagLine text) := by
  unfold Framing.dropTagLine
  split
  · next line rest hSplit =>
    split
    · exact h
    · next hLine =>
      rw [Text.splitFirst?_eq_some hSplit] at h
      exact h.of_append_right hOpen (by simpa using hLine)
  · exact h

/-- A fence mark that no closing brace follows is behind the object. -/
theorem Around.dropClosingFence (hClose : object.getLast? = some '}') (h : Around object text) :
    Around object (dropClosingFence text) := by
  unfold Framing.dropClosingFence
  split
  · next inner rest hSplit =>
    split
    · exact h
    · next hRest =>
      -- what the cut takes off is the last fence mark and the text behind it
      have hEq := Text.splitLast?_eq_some hSplit
      rw [List.append_assoc] at hEq
      rw [hEq] at h
      have hMark : '}' ∉ fenceMark := by decide
      exact h.of_append_left hClose (by simp [hMark, hRest])
  · exact h

/-- A fence that opens in front of the object is taken off, any other one is left alone. -/
theorem Around.unfence (hOpen : object.head? = some '{') (hClose : object.getLast? = some '}')
    (h : Around object text) : Around object (unfence text) := by
  have hTrim := h.trim hOpen hClose
  simp only [Framing.unfence]
  split
  · exact hTrim
  · split
    · exact hTrim
    · next before after hSplit =>
      split
      · exact hTrim
      · next hBefore =>
        -- up to the fence mark no brace opens, so the object is behind it
        rw [Text.splitFirst?_eq_some hSplit] at hTrim
        have hMark : '{' ∉ fenceMark := by decide
        have hAfter := hTrim.of_append_right hOpen (by simp [hMark, hBefore])
        exact ((hAfter.dropTagLine hOpen).dropClosingFence hClose).trim hOpen hClose

/-- What stands before an object is dropped up to its opening brace. -/
theorem dropWhile_front {front object : List Char} (hFront : '{' ∉ front)
    (hOpen : object.head? = some '{') : (front ++ object).dropWhile (· ≠ '{') = object := by
  have hNe : ∀ c ∈ front, (decide (c ≠ '{')) = true := by
    intro c hc
    rw [decide_eq_true_eq]
    rintro rfl
    exact hFront hc
  obtain ⟨tail, rfl⟩ := List.head?_eq_some_iff.mp hOpen
  rw [List.dropWhile_append_of_pos hNe]
  simp

/-- The outer object of a text around an object is that object. -/
theorem outerObject?_of_around (hOpen : object.head? = some '{')
    (hClose : object.getLast? = some '}') (h : Around object text) :
    outerObject? text = some object := by
  obtain ⟨front, back, rfl, hFront, hBack⟩ := h
  obtain ⟨inner, hInner⟩ := List.getLast?_eq_some_iff.mp hClose
  -- the first opening brace is the object's first character
  have hDrop : (front ++ object ++ back).dropWhile (· ≠ '{') = object ++ back := by
    obtain ⟨tail, rfl⟩ := List.head?_eq_some_iff.mp hOpen
    rw [List.append_assoc]
    exact dropWhile_front hFront rfl
  -- the last closing brace is its last one
  have hSplit : Text.splitLast? ['}'] (object ++ back) = some (inner, back) := by
    rw [hInner, List.append_assoc]
    exact Text.splitLast?_singleton hBack inner
  have hNe : object ++ back ≠ [] := by simp [hInner]
  unfold outerObject?
  rw [hDrop]
  split
  · contradiction
  · rw [hSplit, hInner]

end Cuts

/-! ## The reply of a framed object -/

/-- A stream with one object in it, a front that opens no brace and a back that closes none, is cut
down to that object, and however it was cut into chunks, its reply is the one the object says. -/
theorem finish_of_framed {front object back : List Char} (hFront : '{' ∉ front)
    (hOpen : object.head? = some '{') (hClose : object.getLast? = some '}') (hBack : '}' ∉ back) :
    outerObject? (unfence (splitMark (front ++ object ++ back)).1) = some object ∧
      ∀ (chunks : List (List Char)) (reply : Reply), chunks.flatten = front ++ object ++ back →
        Reply.read? object = some reply →
        (Assembly.pushAll {} chunks).1.finish = .ok reply := by
  have hAround : Around object (front ++ object ++ back) := ⟨front, back, rfl, hFront, hBack⟩
  have hFound := outerObject?_of_around hOpen hClose
    ((hAround.splitMark hClose).unfence hOpen hClose)
  refine ⟨hFound, ?_⟩
  intro chunks reply hChunks hReply
  -- an assembly only reads its whole text
  have hText : (Assembly.pushAll {} chunks).1.text = front ++ object ++ back := by
    rw [Assembly.pushAll_text, hChunks]
    rfl
  simp only [Assembly.finish, hText, Assembly.readStream, hFound, Assembly.readDocument, hReply]

/-- A message with a fence and braces in its text, behind prose and a fence, before a fence and a
marker, in two chunks. -/
theorem finish_of_fenced_message :
    Reply.read? "\x7b\"type\": \"message\", \"content\": \"\x7d```\x7b\"\x7d".toList =
        some (.message "\x7d```\x7b") ∧
      (Assembly.pushAll {} ["Here:\n```json\n\x7b\"type\": \"mess".toList,
        "age\", \"content\": \"\x7d```\x7b\"\x7d\n```\n[[STREAM_END:complete]]\n".toList]
        ).1.finish = .ok (.message "\x7d```\x7b") := by
  obtain ⟨object, hObject⟩ : ∃ object : List Char,
      object = "\x7b\"type\": \"message\", \"content\": \"\x7d```\x7b\"\x7d".toList := ⟨_, rfl⟩
  have hRead : Document.read? object =
      some (.object [("type", .string "message"), ("content", .string "\x7d```\x7b")]) := by
    rw [hObject]
    rfl
  have hReply : Reply.read? object = some (.message "\x7d```\x7b") := by
    rw [Reply.read?, hRead]
    rfl
  have hFront : '{' ∉ "Here:\n```json\n".toList := by decide
  have hOpen : object.head? = some '{' := by
    rw [hObject]
    decide
  have hClose : object.getLast? = some '}' := by
    rw [hObject]
    decide
  have hBack : '}' ∉ "\n```\n[[STREAM_END:complete]]\n".toList := by decide
  obtain ⟨-, hFinish⟩ := finish_of_framed hFront hOpen hClose hBack
  rw [← hObject]
  refine ⟨hReply, hFinish _ _ ?_ hReply⟩
  rw [hObject]
  decide

end Onboarding.Framing
