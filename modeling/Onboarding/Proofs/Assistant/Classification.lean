import Onboarding.Proofs.Assistant.Cutting
import Onboarding.Proofs.Assistant.Watching
import Onboarding.Proofs.Json.Grammar

/-!
# Onboarding — the kind that is told early

The kind of a reply is told as soon as a scanner has found the value of `type`,
long before the reply is read. The scanner and the reader go over the same
object: the text that is read as the reply (`Assembly.source?`) begins where the
scanner begins, and what a repair puts in place of its end are brackets, so the
literal that names the kind has arrived. They agree on it unless they disagree
on which keys are `type`, which takes a key that is written with an escape.

## Results

* `Assembly.kind_pushAll` — the kind is what the scanner finds, however the text
  was cut into chunks.
* `exists_of_source?` — where the text that is read comes from.
* `Assembly.kind_of_finish` — the kind that is told is the kind of the reply.
-/

namespace Onboarding

open Json

/-! ## What is read and what is told -/

namespace Assembly

/-- The text that is read as the reply of a stream: its object, or the repaired object if that alone
is no reply and the stream was cut off. -/
def source? (text : List Char) : Option (List Char) :=
  (Framing.outerObject? (Framing.unfence (Framing.splitMark text).1)).map fun object =>
    if Reply.read? object = none ∧ (Framing.splitMark text).2 = .truncated then
      Repair.repair object
    else object

/-- A stream has the reply that its text is read as. -/
theorem exists_source_of_finish {chunks : List (List Char)} {reply : Reply}
    (h : (pushAll {} chunks).1.finish = .ok reply) :
    ∃ s, source? chunks.flatten = some s ∧ Reply.read? s = some reply := by
  have hText : (pushAll {} chunks).1.text = chunks.flatten := pushAll_text {} chunks
  -- `finish` and `source?` branch alike: read whole, or cut off and read after the repair
  rw [finish, hText, readStream] at h
  rw [source?]
  simp only at h
  split at h
  · simp at h
  · next object hObject =>
    simp only [hObject, Option.map_some]
    refine ⟨_, rfl, ?_⟩
    rw [readDocument] at h
    split at h
    · next read hRead =>
      rw [Except.ok.injEq] at h
      simp [hRead, h]
    · next hRead =>
      split at h
      · next hCut =>
        split at h
        · next read hRepair =>
          rw [Except.ok.injEq] at h
          simp [hRead, hCut, hRepair, h]
        · simp at h
      · simp at h

/-- A stream that is nothing but an object is read as that object. -/
theorem finish_of_object {object : List Char} {reply : Reply} {chunks : List (List Char)}
    (hOpen : object.head? = some '{') (hClose : object.getLast? = some '}')
    (hReply : Reply.read? object = some reply) (hChunks : chunks.flatten = object) :
    source? chunks.flatten = some object ∧ (pushAll {} chunks).1.finish = .ok reply := by
  have hText : (pushAll {} chunks).1.text = object := (pushAll_text {} chunks).trans hChunks
  have hAround : Framing.Around object object := ⟨[], [], by simp, by simp, by simp⟩
  have hObject := Framing.outerObject?_of_around hOpen hClose
    ((hAround.splitMark hClose).unfence hOpen hClose)
  refine ⟨?_, ?_⟩
  · rw [source?, hChunks, hObject, Option.map_some, if_neg (by simp [hReply])]
  · simp only [finish, hText, readStream, hObject, readDocument, hReply]

/-- The kind is the one that the text found by the scanner names. -/
def Told (a : Assembly) : Prop :=
  a.kind = a.scanner.found.bind fun name => ReplyKind.ofName? (String.ofList name)

theorem Told.push {a : Assembly} (h : Told a) (chunk : List Char) : Told (a.push chunk).1 := by
  unfold Told at h ⊢
  simp only [Assembly.push, FieldScanner.push]
  by_cases hSettled : a.scanner.isSettled = true
  · -- a settled scanner tells nothing more
    simp [hSettled, FieldScanner.advance_of_isSettled hSettled, h]
  · have hFound : a.scanner.found = none := by
      simp only [FieldScanner.isSettled, Bool.or_eq_true, Option.isSome_iff_ne_none, not_or,
        Decidable.not_not] at hSettled
      exact hSettled.2
    rw [hFound, Option.bind_none] at h
    simp [hSettled, h]

/-- The scanner has gone over the whole text, however it was cut into chunks, and the kind is the
one it has found. -/
theorem kind_pushAll (chunks : List (List Char)) (a : Assembly) (h : Told a) :
    (a.pushAll chunks).1.scanner = a.scanner.advance chunks.flatten ∧
      Told (a.pushAll chunks).1 := by
  induction chunks generalizing a with
  | nil => exact ⟨rfl, h⟩
  | cons chunk rest ih =>
    obtain ⟨hScanner, hTold⟩ := ih _ (h.push chunk)
    refine ⟨?_, hTold⟩
    rw [List.flatten_cons, FieldScanner.advance_append]
    exact hScanner

end Assembly

/-! ## Where the text that is read comes from -/

/-- The text that is read begins, behind a front without an opening brace, like the stream, and what
does not stand in the stream are closing brackets. -/
theorem exists_of_source? {text s : List Char} (h : Assembly.source? text = some s) :
    ∃ front kept closers back, text = front ++ kept ++ back ∧ '{' ∉ front ∧ s = kept ++ closers ∧
      (∀ c ∈ closers, Repair.isClosing c = true) ∧ (kept = [] ∨ kept.head? = some '{') := by
  rw [Assembly.source?, Option.map_eq_some_iff] at h
  obtain ⟨object, hObject, hSource⟩ := h
  obtain ⟨hLeads, hOpen⟩ := Framing.leads_outerObject? hObject
  obtain ⟨front, back, hText, hFront⟩ :=
    hLeads.trans ((Framing.leads_unfence _).trans (Framing.leads_splitMark text))
  split at hSource
  · -- the repaired object
    obtain ⟨kept, closers, hRepair, ⟨tail, rfl⟩, hClosers⟩ := Repair.exists_repair object
    refine ⟨front, kept, closers, tail ++ back, by simp [hText], hFront, hSource.symm.trans hRepair,
      hClosers, ?_⟩
    cases kept with
    | nil => exact .inl rfl
    | cons c kept => exact .inr hOpen
  · exact ⟨front, object, [], back, hText, hFront, by simp [hSource], by simp, .inr hOpen⟩

/-- A text that is a reply is a page, and its root is a container. -/
theorem exists_page_of_reply {text : List Char} {reply : Reply}
    (h : Reply.read? text = some reply) :
    ∃ page : Page, page.text = text ∧ Reply.ofDocument? page.root.document = some reply ∧
      page.root.isContainer = true := by
  obtain ⟨d, hRead, hDocument⟩ := Option.bind_eq_some_iff.mp h
  obtain ⟨_, hTagged, -⟩ := Option.bind_eq_some_iff.mp hDocument
  obtain ⟨_, hCut, -⟩ := Option.bind_eq_some_iff.mp hTagged
  have hReadable : d.isReadable = true := by
    rw [← Bool.not_eq_false]
    intro hUnreadable
    simp [Document.cutTag?, hUnreadable] at hCut
  obtain ⟨page, hText, rfl⟩ := exists_page hRead hReadable
  refine ⟨page, hText, hDocument, ?_⟩
  -- only a container has a member or an item for the tag
  cases hRoot : page.root with
  | name n => cases n <;> simp [hRoot, Written.document, Name.document, Document.cutTag?] at hCut
  | numeral t => simp [hRoot, Written.document, Document.cutTag?] at hCut
  | string t => simp [hRoot, Written.document, Document.cutTag?] at hCut
  | array items gap => rfl
  | object members gap => rfl

/-- A page that begins with an opening brace is an object. -/
theorem exists_object_of_head {page : Page} (h : page.text.head? = some '{') :
    page.before.1 = [] ∧ ∃ members gap, page.root = .object members gap := by
  obtain ⟨⟨before, hBefore⟩, root, after, hDepth⟩ := page
  cases before with
  | cons c before =>
    -- a blank is no brace
    have hBlank := hBefore c List.mem_cons_self
    rw [Page.text, List.cons_append, List.cons_append, List.head?_cons, Option.some.injEq] at h
    rw [h] at hBlank
    exact absurd hBlank (by decide)
  | nil =>
    refine ⟨rfl, ?_⟩
    rw [Page.text, List.nil_append] at h
    cases root with
    | name n => cases n <;> simp [Written.text, Name.text] at h
    | numeral t =>
      obtain ⟨c, rest, first, -, hText, hFirst, -⟩ := t.exists_part
      simp only [Written.text, hText, List.cons_append, List.head?_cons, Option.some.injEq] at h
      rw [h, show Numeral.Part.first? '{' = none from rfl] at hFirst
      exact absurd hFirst (by simp)
    | string t => simp [Written.text, StringText.text] at h
    | array items gap => simp [Written.text] at h
    | object members gap => exact ⟨members, gap, rfl⟩

/-- No page begins with a closing bracket. -/
theorem exists_head (page : Page) :
    ∃ c rest, page.text = c :: rest ∧ Repair.isClosing c = false := by
  obtain ⟨⟨before, hBefore⟩, root, after, hDepth⟩ := page
  cases before with
  | cons c before =>
    refine ⟨c, before ++ root.text ++ after.1, rfl, ?_⟩
    have hBlank := hBefore c List.mem_cons_self
    simp only [isSpace, Bool.or_eq_true, beq_iff_eq] at hBlank
    rcases hBlank with ((rfl | rfl) | rfl) | rfl <;> decide
  | nil =>
    obtain ⟨c, rest, hText, hEnd⟩ := root.text_eq_cons
    refine ⟨c, rest ++ after.1, by simp [Page.text, hText], ?_⟩
    simp only [isEnd, Bool.or_eq_false_iff] at hEnd
    simp [Repair.isClosing, hEnd]

/-! ## The member that names the kind -/

theorem documents_eq_map (members : WrittenMembers) :
    members.documents = members.toList.map fun member => (member.1.value, member.2.document) := by
  fun_induction WrittenMembers.toList members with
  | case1 => rfl
  | case2 outer inner key before after value rest ih =>
    rw [WrittenMembers.documents, ih, List.map_cons]

/-- Among the members of a reply exactly one is called `type`; it holds the name of the reply's
kind. -/
theorem exists_type_member {members : WrittenMembers} {gap : Gap} {reply : Reply}
    (h : Reply.ofDocument? (Written.object members gap).document = some reply) :
    ∃ start key t rest, members.toList = start ++ (key, Written.string t) :: rest ∧
      key.value = "type" ∧ (∀ member ∈ start, member.1.value ≠ "type") ∧
      ReplyKind.ofName? t.value = some reply.kind := by
  obtain ⟨⟨tag, body⟩, hTagged, hReply⟩ := Option.bind_eq_some_iff.mp h
  obtain ⟨kind, hKind, hBody⟩ := Option.bind_eq_some_iff.mp hReply
  obtain ⟨⟨d, body'⟩, hCut, hTag⟩ := Option.bind_eq_some_iff.mp hTagged
  simp only [Document.alternative?_direct, Option.map_eq_some_iff] at hTag
  obtain ⟨tag', hString, hPair⟩ := hTag
  obtain ⟨rfl, rfl⟩ := Prod.mk.inj hPair
  -- the record is readable and has one member of that name
  have hFilter : ∃ name, members.documents.filter (fun m => m.1 = "type") = [(name, d)] := by
    rw [Written.document, Document.cutTag?] at hCut
    split at hCut
    · simp at hCut
    · split at hCut
      · next name d' hFilter =>
        rw [Option.some.injEq, Prod.mk.injEq] at hCut
        exact ⟨name, by rw [hFilter, hCut.1]⟩
      · simp at hCut
  obtain ⟨name, hFilter⟩ := hFilter
  rw [documents_eq_map, List.filter_map, List.map_eq_singleton_iff] at hFilter
  obtain ⟨⟨key, value⟩, hMember, hSaid⟩ := hFilter
  obtain ⟨start, rest, hMembers, hStart, hHere, -⟩ := List.filter_eq_cons_iff.mp hMember
  obtain ⟨rfl, rfl⟩ := Prod.mk.inj hSaid
  -- what says a string is a string
  have hValue : ∃ t, value = .string t ∧ t.value = tag' := by
    cases value with
    | name n => cases n <;> simp [Written.document, Name.document, Document.toString?] at hString
    | string t => exact ⟨t, rfl, by simpa [Written.document, Document.toString?] using hString⟩
    | _ => simp [Written.document, Document.toString?] at hString
  obtain ⟨t, rfl, rfl⟩ := hValue
  refine ⟨start, key, t, rest, hMembers, by simpa using hHere, ?_, ?_⟩
  · intro member hMember
    simpa using hStart member hMember
  · rw [hKind, ← Reply.kind_of_ofRest? hBody]

/-- A text that ends without a character goes on with it where the whole text does. -/
theorem exists_of_append {u v front rest : List Char} {c : Char}
    (h : u ++ v = front ++ c :: rest) (hv : c ∉ v) : ∃ more, u = front ++ c :: more := by
  rcases List.append_eq_append_iff.mp h with ⟨more, -, rfl⟩ | ⟨more, rfl, hRest⟩
  · exact absurd (by simp) hv
  · cases more with
    | nil =>
      rw [List.nil_append] at hRest
      rw [← hRest] at hv
      exact absurd (by simp) hv
    | cons d more =>
      rw [List.cons_append, List.cons.injEq] at hRest
      exact ⟨more, by rw [hRest.1]⟩

/-- The scanner finds the string of the member called `type`, if it takes no other member for it. -/
theorem watched?_of_type {members : WrittenMembers} {start rest : List (StringText × Written)}
    {key t : StringText} (hMembers : members.toList = start ++ (key, .string t) :: rest)
    (hStart : ∀ member ∈ start, FieldScanner.reading false member.1.body ≠ "type".toList)
    (hKey : FieldScanner.reading false key.body = "type".toList) :
    FieldScanner.watched? "type".toList members = some (FieldScanner.reading false t.body) := by
  have hNone : start.findSome? (fun member =>
      FieldScanner.memberString? "type".toList member.1 member.2) = none := by
    rw [List.findSome?_eq_none_iff]
    intro member hMember
    exact FieldScanner.memberString?_eq_none.mpr fun hSame => absurd hSame (hStart member hMember)
  have hSome : FieldScanner.memberString? "type".toList key (.string t) =
      some (FieldScanner.reading false t.body) :=
    FieldScanner.memberString?_eq_some.mpr ⟨hKey, t, rfl, rfl⟩
  rw [FieldScanner.watched?, hMembers, List.findSome?_append, hNone, Option.none_or,
    List.findSome?_cons, hSome]

/-- The names of kinds hold no `u` and no control character, so a literal that the scanner takes for
one says it. -/
theorem eq_of_ofName? {t : StringText} {told kind : ReplyKind}
    (hTold : ReplyKind.ofName? (String.ofList (FieldScanner.reading false t.body)) = some told)
    (hKind : ReplyKind.ofName? t.value = some kind) : told = kind := by
  have hName {name : String} {kind : ReplyKind} (h : ReplyKind.ofName? name = some kind) :
      name = kind.name := by
    unfold ReplyKind.ofName? at h
    split at h <;> simp at h <;> subst h <;> rfl
  have hReading : FieldScanner.reading false t.body = told.name.toList := by
    rw [← hName hTold, String.toList_ofList]
  -- then neither an escape of a unit nor one of a control character stands in the literal
  have hUnit : 'u' ∉ FieldScanner.reading false t.body := by
    rw [hReading]
    cases told <;> decide
  have hControl : ∀ c ∈ t.value.toList, 0x20 ≤ c.toNat := by
    have hAll : (kind.name.toList.all fun c => decide (0x20 ≤ c.toNat)) = true := by
      cases kind <;> rfl
    intro c hc
    rw [hName hKind] at hc
    exact of_decide_eq_true (List.all_eq_true.mp hAll c hc)
  rw [FieldScanner.reading_eq_value hUnit hControl, String.ofList_toList, hKind,
    Option.some.injEq] at hTold
  exact hTold.symm

/-! ## The kind of the reply -/

/-- The keys of an object, in turn. -/
def Json.Written.keys : Written → List StringText
  | .object members _ => members.toList.map Prod.fst
  | _ => []

/-- Take a stream, cut into chunks anyhow, that tells a kind and has a reply. The reply is read from
a page, and if every key of its object that is written with an escape is taken for `type` by the
scanner exactly if it says `type`, then the kind that was told is the kind of the reply. -/
theorem Assembly.kind_of_finish {chunks : List (List Char)} {told : ReplyKind} {reply : Reply}
    (hTold : (pushAll {} chunks).1.kind = some told)
    (hFinish : (pushAll {} chunks).1.finish = .ok reply) :
    (∃ page : Page, source? chunks.flatten = some page.text) ∧
      ∀ page : Page, source? chunks.flatten = some page.text →
        (∀ key ∈ page.root.keys, '\\' ∈ key.body →
          (FieldScanner.reading false key.body = "type".toList ↔ key.value = "type")) →
        reply.kind = told := by
  obtain ⟨s, hSource, hReply⟩ := exists_source_of_finish hFinish
  refine ⟨?_, fun page hPage hKeys => ?_⟩
  · obtain ⟨page, rfl, -⟩ := exists_page_of_reply hReply
    exact ⟨page, hSource⟩
  obtain rfl : s = page.text := Option.some.inj (hSource.symm.trans hPage)
  have hDocument : Reply.ofDocument? page.root.document = some reply := by
    rwa [Reply.read?, page.read?_text] at hReply
  obtain ⟨front, kept, closers, back, hText, hFront, hKept, hClosers, hOpen⟩ :=
    exists_of_source? hSource
  -- the page begins with the object, because no page begins with a closing bracket
  have hHead : page.text.head? = some '{' := by
    rcases hOpen with rfl | hOpen
    · obtain ⟨c, rest, hCons, hClosing⟩ := exists_head page
      rw [List.nil_append] at hKept
      have hCloser := hClosers c (by simp [← hKept, hCons])
      rw [hClosing] at hCloser
      exact absurd hCloser (by decide)
    · obtain ⟨inner, rfl⟩ := List.head?_eq_some_iff.mp hOpen
      rw [hKept]
      rfl
  obtain ⟨hBefore, members, gap, hRoot⟩ := exists_object_of_head hHead
  rw [hRoot] at hDocument hKeys
  obtain ⟨start, key, t, rest, hMembers, hType, hStart, hKind⟩ := exists_type_member hDocument
  -- the scanner and the reader agree on which members are the tag
  have hAgree : ∀ member ∈ members.toList,
      FieldScanner.reading false member.1.body = "type".toList ↔ member.1.value = "type" := by
    intro member hMember
    by_cases hPlain : '\\' ∈ member.1.body
    · exact hKeys member.1 (List.mem_map_of_mem hMember) hPlain
    · rw [FieldScanner.reading_of_plain hPlain, String.toList_inj]
  have hWatched := watched?_of_type hMembers
    (fun member hMember => fun hSame => hStart member hMember
      ((hAgree member (by simp [hMembers, hMember])).mp hSame))
    ((hAgree (key, .string t) (by simp [hMembers])).mpr hType)
  obtain ⟨before, after, hObject, hFound⟩ := FieldScanner.exists_found gap hWatched
  -- closing brackets hold no quote, so the stream goes on with the whole literal
  have hQuote : '"' ∉ closers := fun hc => absurd (hClosers _ hc) (by decide)
  have hLiteral : kept ++ closers = before ++ '"' :: (after ++ page.after.1) := by
    rw [← hKept, Page.text, hBefore, hRoot, hObject]
    simp
  obtain ⟨more, rfl⟩ := exists_of_append hLiteral hQuote
  -- the scanner is settled by what the stream and the page have in common
  have hScanned : (FieldScanner.ofKey "type").advance chunks.flatten =
      (FieldScanner.ofKey "type").advance (front ++ (before ++ ['"'])) := by
    have hSplit : chunks.flatten = front ++ (before ++ ['"']) ++ (more ++ back) := by simp [hText]
    rw [hSplit, FieldScanner.advance_append]
    exact FieldScanner.advance_of_isSettled
      (by simp [FieldScanner.isSettled, hFound front hFront]) _
  obtain ⟨hScanner, hKindTold⟩ := kind_pushAll chunks {} rfl
  rw [Told, hTold, hScanner] at hKindTold
  change _ = ((FieldScanner.ofKey "type").advance chunks.flatten).found.bind _ at hKindTold
  rw [hScanned, hFound front hFront, Option.bind_some] at hKindTold
  exact (eq_of_ofName? hKindTold.symm hKind).symm

/-- A message in two chunks, with another key that is written with an escape. -/
theorem Assembly.kind_of_finish_message :
    ∃ (chunks : List (List Char)) (page : Page),
      (pushAll {} chunks).1.kind = some .message ∧
      (pushAll {} chunks).1.finish = .ok (.message "hi") ∧
      source? chunks.flatten = some page.text ∧
      page.root.keys.map StringText.body = ["a\\/b".toList, "type".toList, "content".toList] ∧
      (Reply.message "hi").kind = .message := by
  obtain ⟨object, hObject⟩ : ∃ object : List Char,
      object = "\x7b\"a\\/b\": null, \"type\": \"message\", \"content\": \"hi\"\x7d".toList :=
    ⟨_, rfl⟩
  -- the object as it is written
  obtain ⟨space, hSpace⟩ : ∃ space : Gap, space.1 = [' '] := ⟨⟨[' '], by simp [isSpace]⟩, rfl⟩
  obtain ⟨page, hPage⟩ : ∃ page : Page, page.root = .object
      (.cons Gap.none Gap.none ⟨"a\\/b".toList, "a/b", rfl⟩ Gap.none space (.name .null)
        (.cons Gap.none space ⟨"type".toList, "type", rfl⟩ Gap.none space
          (.string ⟨"message".toList, "message", rfl⟩)
          (.cons Gap.none space ⟨"content".toList, "content", rfl⟩ Gap.none space
            (.string ⟨"hi".toList, "hi", rfl⟩) .nil))) Gap.none ∧
      page.before = Gap.none ∧ page.after = Gap.none :=
    ⟨⟨Gap.none, _, Gap.none, by simp [Written.depth, WrittenMembers.depth, maxDepth]⟩, rfl, rfl,
      rfl⟩
  have hText : page.text = object := by
    rw [Page.text, hPage.1, hPage.2.1, hPage.2.2, hObject]
    simp only [Written.text, WrittenMembers.text, memberLead, itemLead, hSpace]
    rfl
  have hDocument : page.root.document =
      .object [("a/b", .null), ("type", .string "message"), ("content", .string "hi")] := by
    rw [hPage.1]
    rfl
  have hReply : Reply.read? object = some (.message "hi") := by
    rw [Reply.read?, ← hText, page.read?_text, Option.bind_some, hDocument]
    rfl
  obtain ⟨chunks, hChunks⟩ : ∃ chunks : List (List Char), chunks =
      ["\x7b\"a\\/b\": null, \"type\": \"mess".toList, "age\", \"content\": \"hi\"\x7d".toList] :=
    ⟨_, rfl⟩
  have hFlatten : chunks.flatten = object := by
    rw [hChunks, hObject]
    decide
  have hOpen : object.head? = some '{' := by
    rw [hObject]
    rfl
  have hClose : object.getLast? = some '}' := by
    rw [hObject]
    decide
  obtain ⟨hSource, hFinish⟩ := finish_of_object hOpen hClose hReply hFlatten
  rw [← hText] at hSource
  have hTold : (pushAll {} chunks).1.kind = some .message := by
    rw [hChunks]
    rfl
  obtain ⟨-, hKind⟩ := kind_of_finish hTold hFinish
  have hKeys : page.root.keys = [⟨"a\\/b".toList, "a/b", rfl⟩, ⟨"type".toList, "type", rfl⟩,
      ⟨"content".toList, "content", rfl⟩] := by
    rw [hPage.1]
    rfl
  refine ⟨chunks, page, hTold, hFinish, hSource, ?_, hKind page hSource ?_⟩
  · rw [hKeys]
    rfl
  · rw [hKeys]
    -- the key with the escape is taken for something else, and says something else
    intro key hKey _
    simp only [List.mem_cons, List.not_mem_nil, or_false] at hKey
    rcases hKey with rfl | rfl | rfl <;> decide

/-- A key that is a tab and `ype` is taken for `type` where the tab is written as an escape, so the
kind that is told is its string, and not the kind of the reply. -/
theorem Assembly.kind_ne_of_escaped_key :
    (pushAll {} ["\x7b\"\\type\": \"edit\", \"type\": \"message\", \"content\": \"hi\"\x7d".toList]
        ).1.kind = some .edit ∧
      (pushAll {} ["\x7b\"\\type\": \"edit\", \"type\": \"message\", \"content\": \"hi\"\x7d".toList]
        ).1.finish = .ok (.message "hi") := by
  obtain ⟨object, hObject⟩ : ∃ object : List Char, object =
      "\x7b\"\\type\": \"edit\", \"type\": \"message\", \"content\": \"hi\"\x7d".toList := ⟨_, rfl⟩
  have hRead : Document.read? object = some (.object
      [("\type", .string "edit"), ("type", .string "message"), ("content", .string "hi")]) := by
    rw [hObject]
    rfl
  have hReply : Reply.read? object = some (.message "hi") := by
    rw [Reply.read?, hRead]
    rfl
  have hOpen : object.head? = some '{' := by
    rw [hObject]
    rfl
  have hClose : object.getLast? = some '}' := by
    rw [hObject]
    decide
  have hFlatten : [object].flatten = object := by simp
  have hFinish := (finish_of_object hOpen hClose hReply hFlatten).2
  refine ⟨rfl, ?_⟩
  rw [← hObject]
  exact hFinish

end Onboarding
