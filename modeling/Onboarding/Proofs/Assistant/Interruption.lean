import Onboarding.Proofs.Assistant.Classification
import Onboarding.Proofs.Assistant.Truncation

/-!
# Onboarding — the reply of a stream that was cut off

A stream that says it was cut off is read by repairing its object
(`Assembly.readDocument_truncated`). What the cuts leave of the object is not all
of it: they look for the last closing brace of a complete object, and find one
that closes something inside. So an object that was cut off behind a closing
brace is repaired without what stands behind that brace; one that closes no brace
is repaired as it arrived.

## Results

* `Assembly.repaired_append_blanks` — blanks around the beginning of an object
  make no difference to what it is repaired to.
* `Assembly.finish_of_interrupted` — what a stream that was cut off inside its
  object is read as.
-/

namespace Onboarding

open Json

namespace Assembly

/-- The reply of a text that is repaired first. -/
def repaired (text : List Char) : Except ExchangeError Reply :=
  match Reply.read? (Repair.repair text) with
  | some reply => .ok reply
  | none => .error .unrepairable

/-! ## Repairing a reply -/

/-- A reply is its own repair. -/
theorem read?_repair {text : List Char} {reply : Reply} (h : Reply.read? text = some reply) :
    Reply.read? (Repair.repair text) = some reply := by
  obtain ⟨page, rfl, -, hRoot⟩ := exists_page_of_reply h
  obtain ⟨c, rest, hCons, -⟩ := page.root.text_eq_cons
  -- the whole page is a beginning of itself, of which the whole root is held
  have hPos : 0 < page.root.text.length + page.after.1.length := by
    rw [hCons, List.length_cons]
    omega
  obtain ⟨part, hPart, hRepair⟩ := Repair.repair_take page hRoot hPos
  rw [page.root.held?_of_length_le (by omega), Option.some.injEq] at hPart
  have hWhole : page.text.take
      (page.before.1.length + (page.root.text.length + page.after.1.length)) = page.text := by
    rw [List.take_of_length_le]
    simp [Page.text]
  -- without the blanks behind it the root is a page as well
  have hRead := Page.read?_text ⟨page.before, page.root, Gap.none, page.depth_le⟩
  rw [Page.text, Gap.none, List.append_nil] at hRead
  rw [Reply.read?, page.read?_text] at h
  rw [hWhole] at hRepair
  rw [Reply.read?, hRepair, ← hPart, hRead]
  exact h

/-- Of a stream that was cut off the repaired object is read, whether or not it needs the repair. -/
theorem readDocument_truncated (object : List Char) :
    readDocument object .truncated = repaired object := by
  rw [readDocument, repaired]
  cases h : Reply.read? object with
  | some reply => rw [read?_repair h]
  | none => rfl

/-- The blanks before a page's object are those before its first brace. -/
theorem before_eq_of_append {page : Page} {blanks rest : List Char}
    (hBlanks : ∀ c ∈ blanks, isSpace c = true) (h : page.text = blanks ++ '{' :: rest) :
    page.before.1 = blanks ∧ page.root.text ++ page.after.1 = '{' :: rest := by
  obtain ⟨c, tail, hText, hEnd⟩ := page.root.text_eq_cons
  have hSpace : isSpace c = false := by
    simp only [isEnd, Bool.or_eq_false_iff] at hEnd
    exact hEnd.1.1.1
  -- both are the spaces at the beginning of the text
  have hTake (u v : List Char) (d : Char) (hu : ∀ c ∈ u, isSpace c = true)
      (hd : isSpace d = false) : (u ++ d :: v).takeWhile isSpace = u := by
    rw [List.takeWhile_append_of_pos hu]
    simp [hd]
  rw [Page.text, List.append_assoc, hText, List.cons_append] at h
  have hBefore := congrArg (List.takeWhile isSpace) h
  rw [hTake _ _ _ page.before.2 hSpace, hTake _ _ _ hBlanks (by decide)] at hBefore
  rw [hBefore, List.append_cancel_left_eq] at h
  exact ⟨hBefore, by rw [hText]; exact h⟩

/-- Blanks before the beginning of a reply make no difference to what it is repaired to. -/
theorem repaired_append_blanks {text blanks inner : List Char} {reply : Reply}
    (hReply : Reply.read? text = some reply) (hBlanks : ∀ c ∈ blanks, isSpace c = true)
    (hStart : blanks ++ '{' :: inner <+: text) :
    repaired (blanks ++ '{' :: inner) = repaired ('{' :: inner) := by
  obtain ⟨page, rfl, -, hRoot⟩ := exists_page_of_reply hReply
  obtain ⟨more, hMore⟩ := hStart
  rw [List.append_assoc, List.cons_append] at hMore
  obtain ⟨hBefore, hRest⟩ := before_eq_of_append hBlanks hMore.symm
  -- the page without the blanks holds the same of its root, and both are repaired to that part
  have hPos : 0 < inner.length + 1 := Nat.succ_pos _
  obtain ⟨part, hPart, hRepair⟩ := Repair.repair_take page hRoot hPos
  obtain ⟨part', hPart', hRepair'⟩ := Repair.repair_take
    ⟨Gap.none, page.root, page.after, page.depth_le⟩ hRoot hPos
  obtain rfl : part = part' := Option.some.inj (hPart.symm.trans hPart')
  have hTake : page.text.take (page.before.1.length + (inner.length + 1)) =
      blanks ++ '{' :: inner := by
    rw [← hMore, hBefore, List.take_length_add_append, List.take_succ_cons, List.take_left]
  have hTake' : (Page.text ⟨Gap.none, page.root, page.after, page.depth_le⟩).take
      (Gap.none.1.length + (inner.length + 1)) = '{' :: inner := by
    show (page.root.text ++ page.after.1).take (0 + (inner.length + 1)) = '{' :: inner
    rw [hRest]
    simp
  rw [hTake] at hRepair
  rw [hTake'] at hRepair'
  have hDepth := Nat.le_trans (page.root.depth_le_of_held? hPart) page.depth_le
  have hRead := Page.read?_text ⟨page.before, part, Gap.none, hDepth⟩
  have hRead' := Page.read?_text ⟨Gap.none, part, Gap.none, hDepth⟩
  simp only [Page.text, Gap.none, List.append_nil, List.nil_append] at hRead hRead' hRepair'
  rw [repaired, repaired, hRepair, hRepair', Reply.read?, Reply.read?, hRead, hRead']

/-! ## The object of a stream that was cut off -/

/-- A stream that was cut off is read as its object, repaired first. -/
theorem finish_of_cut {chunks : List (List Char)} {body object : List Char}
    (hChunks : chunks.flatten = body ++ Framing.cutMark)
    (hObject : Framing.outerObject? (Framing.unfence body) = some object) :
    (pushAll {} chunks).1.finish = repaired object := by
  have hText : (pushAll {} chunks).1.text = body ++ Framing.cutMark :=
    (pushAll_text {} chunks).trans hChunks
  rw [finish, hText, readStream, Framing.splitMark_cutMark]
  simp only [hObject, readDocument_truncated]

/-- Take the beginning of a reply, cut off behind its opening brace, in a stream that says so, with
a front that opens no brace. If the beginning closes a brace, what stands up to its last closing
brace is repaired and read. If it closes none, it is repaired and read as a whole, unless a fence
was opened before the object and its mark stands again behind. -/
theorem finish_of_interrupted {text front blanks inner : List Char} {reply : Reply}
    {chunks : List (List Char)} (hReply : Reply.read? text = some reply) (hFront : '{' ∉ front)
    (hBlanks : ∀ c ∈ blanks, isSpace c = true) (hStart : blanks ++ '{' :: inner <+: text)
    (hChunks : chunks.flatten =
      front ++ (blanks ++ '{' :: inner) ++ '\n' :: Framing.cutMark) :
    (∀ kept rest, inner = kept ++ '}' :: rest → '}' ∉ rest →
        (pushAll {} chunks).1.finish = repaired (blanks ++ '{' :: kept ++ ['}'])) ∧
      ('}' ∉ inner → Framing.Unclosed chunks.flatten →
        (pushAll {} chunks).1.finish = repaired (blanks ++ '{' :: inner)) := by
  have hBody : chunks.flatten = front ++ (blanks ++ '{' :: inner) ++ ['\n'] ++ Framing.cutMark := by
    rw [hChunks, ← List.append_cons]
  have hAhead : '{' ∉ front ++ blanks := by
    rw [List.mem_append, not_or]
    exact ⟨hFront, fun hc => absurd (hBlanks _ hc) (by decide)⟩
  refine ⟨fun kept rest hInner hRest => ?_, fun hClose hUnclosed => ?_⟩
  · -- behind the last closing brace only the end of the beginning is left
    have hOpen : ('{' :: kept ++ ['}']).head? = some '{' := rfl
    have hLast : ('{' :: kept ++ ['}']).getLast? = some '}' := List.getLast?_concat
    have hAround : Framing.Around ('{' :: kept ++ ['}'])
        (front ++ (blanks ++ '{' :: inner) ++ ['\n']) :=
      ⟨front ++ blanks, rest ++ ['\n'], by simp [hInner], hAhead, by simp [hRest]⟩
    have hKept : blanks ++ '{' :: (kept ++ ['}']) <+: text := by
      refine List.IsPrefix.trans ⟨rest, ?_⟩ hStart
      simp [hInner]
    have hAppend := repaired_append_blanks hReply hBlanks hKept
    rw [← List.cons_append, ← List.append_assoc] at hAppend
    rw [hAppend]
    exact finish_of_cut hBody
      (Framing.outerObject?_of_around hOpen hLast (hAround.unfence hOpen hLast))
  · -- nothing but the prose, the opened fence and blanks are cut off
    have hOpen : ('{' :: inner ++ ['\n']).head? = some '{' := rfl
    have hFinal : Framing.Final ('{' :: inner ++ ['\n'])
        (front ++ (blanks ++ '{' :: inner) ++ ['\n']) := ⟨front ++ blanks, by simp, hAhead⟩
    have hLeads := Framing.leads_of_append_left (front ++ (blanks ++ '{' :: inner) ++ ['\n'])
      Framing.cutMark
    rw [← hBody] at hLeads
    have hLeft := hFinal.unfence hOpen (hUnclosed.of_leads hLeads)
    have hNone : '}' ∉ Text.trimEnd ('{' :: inner ++ ['\n']) := by
      obtain ⟨tail, hTrim, -⟩ := Text.exists_trimEnd ('{' :: inner ++ ['\n'])
      have hWhole : '}' ∉ '{' :: inner ++ ['\n'] := by simp [hClose]
      rw [hTrim, List.mem_append, not_or] at hWhole
      exact hWhole.1
    have hLine : ∀ c ∈ ['\n'], Text.isBlank c = true := by
      intro c hc
      rw [List.mem_singleton.mp hc]
      decide
    rw [finish_of_cut hBody
        (Framing.outerObject?_of_final (Framing.head?_trimEnd hOpen) hNone hLeft),
      repaired_append_blanks hReply hBlanks hStart, repaired, repaired, Repair.repair_trimEnd,
      Repair.repair_append_blanks hLine]

/-- A message that was cut off behind its last string, in two chunks. -/
theorem finish_of_interrupted_message :
    (pushAll {} ["Sure:\n\x7b\"type\": \"message\", \"con".toList,
        "tent\": \"hi\"\n[[STREAM_END:truncated]]".toList]).1.finish =
      repaired "\x7b\"type\": \"message\", \"content\": \"hi\"".toList ∧
    repaired "\x7b\"type\": \"message\", \"content\": \"hi\"".toList = .ok (.message "hi") := by
  obtain ⟨inner, hInner⟩ : ∃ inner : List Char,
      inner = "\"type\": \"message\", \"content\": \"hi\"".toList := ⟨_, rfl⟩
  obtain ⟨text, hText⟩ : ∃ text : List Char, text = '{' :: inner ++ ['}'] := ⟨_, rfl⟩
  have hRead : Document.read? text =
      some (.object [("type", .string "message"), ("content", .string "hi")]) := by
    rw [hText, hInner]
    rfl
  have hReply : Reply.read? text = some (.message "hi") := by
    rw [Reply.read?, hRead]
    rfl
  have hRepair : Repair.repair ('{' :: inner) = text := by
    rw [hText, hInner]
    rfl
  obtain ⟨chunks, hChunks⟩ : ∃ chunks : List (List Char), chunks =
      ["Sure:\n\x7b\"type\": \"message\", \"con".toList,
        "tent\": \"hi\"\n[[STREAM_END:truncated]]".toList] := ⟨_, rfl⟩
  have hFlatten : chunks.flatten =
      "Sure:\n".toList ++ ([] ++ '{' :: inner) ++ '\n' :: Framing.cutMark := by
    rw [hChunks, hInner]
    decide
  have hFront : '{' ∉ "Sure:\n".toList := by decide
  have hBlanks : ∀ c ∈ ([] : List Char), isSpace c = true := by simp
  have hStart : [] ++ '{' :: inner <+: text := ⟨['}'], hText.symm⟩
  have hClose : '}' ∉ inner := by
    rw [hInner]
    decide
  have hUnclosed : Framing.Unclosed chunks.flatten := by
    -- the stream holds no fence mark at all
    intro before after hSplit
    have hTick : '`' ∉ chunks.flatten := by
      rw [hChunks]
      decide
    rw [hSplit] at hTick
    exact absurd (by simp [Framing.fenceMark]) hTick
  have hFinish := (finish_of_interrupted hReply hFront hBlanks hStart hFlatten).2 hClose hUnclosed
  rw [List.nil_append] at hFinish
  have hOk : repaired ('{' :: inner) = .ok (.message "hi") := by
    rw [repaired, hRepair, hReply]
  have hBeginning : "\x7b\"type\": \"message\", \"content\": \"hi\"".toList = '{' :: inner := by
    rw [hInner]
    rfl
  rw [← hChunks, hBeginning]
  exact ⟨hFinish, hOk⟩

/-- An edit that was cut off behind a string after its changes loses the string, because the changes
close a brace before it. Repaired as a whole it keeps the string. -/
theorem finish_ne_repaired :
    (pushAll {} ["\x7b\"type\": \"edit\", \"changes\": [\x7b\"id\": \"a\"\x7d], \"message\": \"Done\"".toList,
        "\n[[STREAM_END:truncated]]".toList]).1.finish = .ok (.edit [.target "a"] "") ∧
      repaired "\x7b\"type\": \"edit\", \"changes\": [\x7b\"id\": \"a\"\x7d], \"message\": \"Done\"".toList =
        .ok (.edit [.target "a"] "Done") := by
  -- what stands up to the last closing brace, and what stands behind it
  obtain ⟨kept, hKept⟩ : ∃ kept : List Char,
      kept = "\x7b\"type\": \"edit\", \"changes\": [\x7b\"id\": \"a\"\x7d".toList := ⟨_, rfl⟩
  obtain ⟨rest, hRest⟩ : ∃ rest : List Char, rest = "], \"message\": \"Done\"".toList := ⟨_, rfl⟩
  have hStart : "\x7b\"type\": \"edit\", \"changes\": [\x7b\"id\": \"a\"\x7d], \"message\": \"Done\"".toList =
      kept ++ rest := by
    rw [hKept, hRest]
    rfl
  have hRead : Document.read? (Repair.repair kept) = some (.object [("type", .string "edit"),
      ("changes", .array [.object [("id", .string "a")]])]) := by
    rw [hKept]
    rfl
  have hWhole : Document.read? (Repair.repair (kept ++ rest)) = some (.object
      [("type", .string "edit"), ("changes", .array [.object [("id", .string "a")]]),
        ("message", .string "Done")]) := by
    rw [hKept, hRest]
    rfl
  have hOpen : kept.head? = some '{' := by
    rw [hKept]
    rfl
  have hClose : kept.getLast? = some '}' := by
    rw [hKept]
    decide
  have hBack : '}' ∉ rest ++ ['\n'] := by
    rw [hRest]
    decide
  have hAround : Framing.Around kept (kept ++ rest ++ ['\n']) :=
    ⟨[], rest ++ ['\n'], by simp, by simp, hBack⟩
  have hChunks : [kept ++ rest, "\n[[STREAM_END:truncated]]".toList].flatten =
      kept ++ rest ++ ['\n'] ++ Framing.cutMark := by
    rw [← List.append_cons]
    rfl
  rw [hStart]
  refine ⟨?_, ?_⟩
  · rw [finish_of_cut hChunks
      (Framing.outerObject?_of_around hOpen hClose (hAround.unfence hOpen hClose)),
      repaired, Reply.read?, hRead]
    rfl
  · rw [repaired, Reply.read?, hWhole]
    rfl

end Assembly

end Onboarding
