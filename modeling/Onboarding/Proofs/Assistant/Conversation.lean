import Onboarding.Assistant.Editor

/-!
# Onboarding — runs of exchanges with the assistant

An exchange either fails and leaves the editor as it was, or it commits a reply:
the forest that the reply makes, which is valid unless the reply is a message,
and the two things said (`send_cases`). What a run of exchanges preserves
follows by induction from what one exchange does. The assistant may answer every
exchange in another way, so a run has an assistant of its own for each.

## Results

* `valid_after` — a valid forest stays valid along every run.
* `send_after` — what one more exchange does after any run.
-/

namespace Onboarding.Editor

/-! ## One exchange -/

/-- What is said in an exchange that does not fail. -/
def said (prompt : String) (reply : Reply) : List Utterance :=
  [⟨.user, prompt⟩, ⟨.assistant, reply.text⟩]

/-- The editor when a reply has been applied. -/
def commit (e : Editor) (prompt : String) (reply : Reply) : Editor :=
  { e with tree := treeOf e.tree reply, history := e.history ++ said prompt reply }

/-- A reply that is applied makes a valid forest, unless it is a message. -/
theorem apply_eq_ok {tree next : List Element} {reply : Reply}
    (h : apply tree reply = .ok next) :
    next = treeOf tree reply ∧ (reply.kind ≠ .message → Element.validate next = .ok ()) := by
  cases reply with
  | message content =>
    -- a message is not checked
    rw [apply, Except.ok.injEq] at h
    exact ⟨h.symm, fun hKind => absurd rfl hKind⟩
  | edit changes text =>
    simp only [apply] at h
    split at h
    · next hValid =>
      rw [Except.ok.injEq] at h
      exact ⟨h.symm, fun _ => h ▸ hValid⟩
    · simp at h
  | generation roots text =>
    simp only [apply] at h
    split at h
    · next hValid =>
      rw [Except.ok.injEq] at h
      exact ⟨h.symm, fun _ => h ▸ hValid⟩
    · simp at h

/-- A reply is received when the whole stream arrives, reads as the reply and the reply can be
applied. -/
theorem receive_eq_ok {e : Editor} {stream : List (Except ExchangeError (List Char))}
    {reply : Reply} {tree : List Element} (h : (e.receive stream).2 = .ok (reply, tree)) :
    ∃ assembly, (gather {} stream).2 = .ok assembly ∧ assembly.finish = .ok reply ∧
      apply e.tree reply = .ok tree := by
  simp only [receive] at h
  -- the three ways to fail, in the order of the program
  cases hGather : (gather {} stream).2 with
  | error error =>
    rw [hGather] at h
    cases h
  | ok assembly =>
    rw [hGather] at h
    cases hFinish : assembly.finish with
    | error error =>
      simp only [bind, Except.bind, hFinish] at h
      cases h
    | ok reply' =>
      cases hApply : apply e.tree reply' with
      | error error =>
        simp only [bind, Except.bind, hFinish, hApply] at h
        cases h
      | ok tree' =>
        simp only [bind, Except.bind, hFinish, hApply, pure, Except.pure, Except.ok.injEq,
          Prod.mk.injEq] at h
        obtain ⟨rfl, rfl⟩ := h
        exact ⟨assembly, rfl, hFinish, hApply⟩

/-- All that an exchange can do. -/
theorem send_cases (e : Editor) (assistant : Assistant) (prompt : String) :
    (∃ error, assistant (e.inquiry prompt) = .error error ∧
      e.send assistant prompt = (e, [], .error error)) ∨
    (∃ stream, assistant (e.inquiry prompt) = .ok stream ∧
      ((∃ error, (e.receive stream).2 = .error error ∧
        e.send assistant prompt = (e, (e.receive stream).1, .error error)) ∨
      (∃ assembly reply, (gather {} stream).2 = .ok assembly ∧ assembly.finish = .ok reply ∧
        (reply.kind ≠ .message → Element.validate (treeOf e.tree reply) = .ok ()) ∧
        e.send assistant prompt = (e.commit prompt reply, (e.receive stream).1, .ok reply)))) := by
  cases hAnswer : assistant (e.inquiry prompt) with
  | error error =>
    refine .inl ⟨error, rfl, ?_⟩
    rw [send, hAnswer]
  | ok stream =>
    refine .inr ⟨stream, rfl, ?_⟩
    cases hReceive : e.receive stream with
    | mk kinds result =>
      cases result with
      | error error =>
        refine .inl ⟨error, rfl, ?_⟩
        rw [send, hAnswer]
        simp only [hReceive]
      | ok received =>
        -- only here is anything of the editor replaced
        obtain ⟨reply, tree⟩ := received
        obtain ⟨assembly, hGather, hFinish, hApply⟩ :=
          receive_eq_ok (congrArg Prod.snd hReceive)
        obtain ⟨rfl, hValid⟩ := apply_eq_ok hApply
        refine .inr ⟨assembly, reply, hGather, hFinish, hValid, ?_⟩
        rw [send, hAnswer]
        simp only [hReceive]
        rfl

/-- What an exchange that does not fail commits. -/
theorem send_eq_ok {e : Editor} {assistant : Assistant} {prompt : String} {reply : Reply}
    (h : (e.send assistant prompt).2.2 = .ok reply) :
    (e.send assistant prompt).1 = e.commit prompt reply ∧
      (reply.kind ≠ .message → Element.validate (treeOf e.tree reply) = .ok ()) := by
  rcases e.send_cases assistant prompt with
    ⟨error, -, hSend⟩ | ⟨stream, -, ⟨error, -, hSend⟩ | ⟨assembly, reply', -, -, hValid, hSend⟩⟩
  · rw [hSend] at h
    cases h
  · rw [hSend] at h
    cases h
  · rw [hSend] at h ⊢
    cases h
    exact ⟨rfl, hValid⟩

/-- A stream that reads as a reply which can be applied makes an exchange that does not fail. -/
theorem send_of_finish (e : Editor) (assistant : Assistant) (prompt : String)
    {stream : List (Except ExchangeError (List Char))} {assembly : Assembly} {reply : Reply}
    {tree : List Element} (hAnswer : assistant (e.inquiry prompt) = .ok stream)
    (hGather : (gather {} stream).2 = .ok assembly) (hFinish : assembly.finish = .ok reply)
    (hApply : apply e.tree reply = .ok tree) : (e.send assistant prompt).2.2 = .ok reply := by
  have hReceive : (e.receive stream).2 = .ok (reply, tree) := by
    simp only [receive, hGather, bind, Except.bind, hFinish, hApply, pure, Except.pure]
  -- the cases of an exchange: all but the answered one contradict what was answered
  rcases e.send_cases assistant prompt with
    ⟨error, hError, -⟩ | ⟨stream', hStream, hCases⟩
  · rw [hAnswer] at hError
    cases hError
  · rw [hAnswer, Except.ok.injEq] at hStream
    subst hStream
    rcases hCases with ⟨error, hError, -⟩ | ⟨assembly', reply', hGather', hFinish', -, hSend⟩
    · rw [hReceive] at hError
      cases hError
    · rw [hGather, Except.ok.injEq] at hGather'
      subst hGather'
      rw [hFinish] at hFinish'
      rw [hSend, hFinish']

/-- An assistant that answers everything with one text. -/
def answering (text : List Char) : Assistant := fun _ => .ok [.ok text]

/-- A text that is an object and reads as a reply makes an exchange that does not fail, if the reply
can be applied. -/
theorem send_answering (e : Editor) (prompt : String) {text : List Char} {d : Document}
    {reply : Reply} {tree : List Element} (hDocument : Document.read? text = some d)
    (hReply : Reply.ofDocument? d = some reply)
    (hSplit : Framing.splitMark text = (text, .unmarked))
    (hOuter : Framing.outerObject? (Framing.unfence text) = some text)
    (hApply : apply e.tree reply = .ok tree) :
    (e.send (answering text) prompt).2.2 = .ok reply := by
  have hRead : Reply.read? text = some reply := by
    rw [Reply.read?, hDocument]
    exact hReply
  have hFinish : Assembly.readStream text = .ok reply := by
    rw [Assembly.readStream, hSplit]
    simp only [hOuter, Assembly.readDocument, hRead]
  have hGather : (gather {} [.ok text]).2 = .ok (({} : Assembly).push text).1 := rfl
  exact send_of_finish e (answering text) prompt rfl hGather hFinish hApply

/-- A message leaves a valid forest as it is, every other reply makes a valid one. -/
theorem valid_commit {e : Editor} {prompt : String} {reply : Reply}
    (hTree : Element.validate e.tree = .ok ())
    (hReply : reply.kind ≠ .message → Element.validate (treeOf e.tree reply) = .ok ()) :
    Element.validate (e.commit prompt reply).tree = .ok () := by
  cases reply with
  | message content => exact hTree
  | edit changes text => exact hReply (by simp [Reply.kind])
  | generation roots text => exact hReply (by simp [Reply.kind])

theorem valid_send {e : Editor} (hTree : Element.validate e.tree = .ok ())
    (assistant : Assistant) (prompt : String) :
    Element.validate (e.send assistant prompt).1.tree = .ok () := by
  cases hResult : (e.send assistant prompt).2.2 with
  | error error => rwa [send_error hResult]
  | ok reply =>
    obtain ⟨hSend, hReply⟩ := send_eq_ok hResult
    rw [hSend]
    exact valid_commit hTree hReply

/-- The lists that the assistant is told of never change. -/
theorem told_send (e : Editor) (assistant : Assistant) (prompt : String) :
    (e.send assistant prompt).1.variableNames = e.variableNames ∧
      (e.send assistant prompt).1.assets = e.assets := by
  cases hResult : (e.send assistant prompt).2.2 with
  | error error =>
    rw [send_error hResult]
    exact ⟨rfl, rfl⟩
  | ok reply =>
    rw [(send_eq_ok hResult).1]
    exact ⟨rfl, rfl⟩

/-- An exchange depends on the assistant only through its answer to the inquiry. -/
theorem send_congr {e : Editor} {assistant other : Assistant} {prompt : String}
    (h : other (e.inquiry prompt) = assistant (e.inquiry prompt)) :
    e.send other prompt = e.send assistant prompt := by
  rw [send, send, h]

/-! ## Runs -/

/-- A prompt and what answers it. -/
structure Exchange where
  assistant : Assistant
  prompt : String

/-- The editor after exchanges in turn. -/
def after (e : Editor) : List Exchange → Editor
  | [] => e
  | x :: rest => (e.send x.assistant x.prompt).1.after rest

/-- A valid forest stays valid along every run. -/
theorem valid_after {e : Editor} (hTree : Element.validate e.tree = .ok ())
    (run : List Exchange) : Element.validate (e.after run).tree = .ok () := by
  -- by induction on the run, with the editor behind its first exchange
  induction run generalizing e with
  | nil => exact hTree
  | cons x run ih => exact ih (valid_send hTree x.assistant x.prompt)

theorem told_after (e : Editor) (run : List Exchange) :
    (e.after run).variableNames = e.variableNames ∧ (e.after run).assets = e.assets := by
  induction run generalizing e with
  | nil => exact ⟨rfl, rfl⟩
  | cons x run ih =>
    obtain ⟨hVariables, hAssets⟩ := ih (e.send x.assistant x.prompt).1
    obtain ⟨hFirst, hSecond⟩ := e.told_send x.assistant x.prompt
    exact ⟨hVariables.trans hFirst, hAssets.trans hSecond⟩

/-- One more exchange after any run: it leaves everything as it was if it fails; else it appends the
prompt and the text of the reply to what was said, and makes of the forest what the reply says. The
forest is valid after it if the first one was, and also if the exchange commits an edit or a
generation. The assistant is asked once, with the redacted forest and what was said before. -/
theorem send_after (start : Editor) (run : List Exchange) (assistant : Assistant)
    (prompt : String) :
    let e := start.after run
    let next := e.send assistant prompt
    (∀ error, next.2.2 = .error error → next.1 = e) ∧
    (∀ reply, next.2.2 = .ok reply →
      next.1.history = e.history ++ [⟨.user, prompt⟩, ⟨.assistant, reply.text⟩] ∧
      next.1.tree = match reply with
        | .message _ => e.tree
        | .edit changes _ => Change.merge e.tree changes
        | .generation roots _ => roots) ∧
    (Element.validate start.tree = .ok () → Element.validate next.1.tree = .ok ()) ∧
    (∀ reply, next.2.2 = .ok reply → reply.kind ≠ .message →
      Element.validate next.1.tree = .ok ()) ∧
    ∃ asked : Inquiry,
      asked.prompt = prompt ∧ asked.tree = Element.redact e.tree ∧ asked.history = e.history ∧
      asked.variableNames = start.variableNames ∧ asked.assets = start.assets ∧
      (∀ other : Assistant, other asked = assistant asked → e.send other prompt = next) ∧
      ∀ (other : Assistant) (error : ExchangeError), other asked = .error error →
        (e.send other prompt).2.2 = .error error := by
  intro e next
  -- the inquiry is the editor's own; its lists are those of the start
  refine ⟨fun error hError => send_error hError, fun reply hReply => ?_, fun hStart => ?_,
    fun reply hReply hKind => ?_, e.inquiry prompt, rfl, rfl, rfl, (start.told_after run).1,
    (start.told_after run).2, fun other hSame => send_congr hSame, fun other error hError => ?_⟩
  · obtain ⟨hNext, -⟩ := send_eq_ok hReply
    rw [show next.1 = e.commit prompt reply from hNext]
    refine ⟨rfl, ?_⟩
    cases reply <;> rfl
  · exact valid_send (valid_after hStart run) assistant prompt
  · obtain ⟨hNext, hValid⟩ := send_eq_ok hReply
    rw [show next.1 = e.commit prompt reply from hNext]
    exact hValid hKind
  · rw [send, hError]

/-- The text of an edit that puts a child into `a`. -/
def editText : List Char :=
  "\x7b\"type\": \"edit\", \"message\": \"Done\", \"changes\": [".toList ++
    "\x7b\"id\": \"a\", \"children\": [\x7b\"id\": \"b\", \"type\": \"text\"\x7d]\x7d]\x7d".toList

/-- The text of a generation of one element. -/
def generationText : List Char :=
  "\x7b\"type\": \"generation\", ".toList ++
    "\"elements\": [\x7b\"id\": \"c\", \"type\": \"vstack\"\x7d]\x7d".toList

/-- Of three exchanges the first one fails, the second one puts a child into the element, and the
third one makes another forest. -/
theorem send_after_generation :
    let start : Editor := { tree := [.plain "a" .vstack] }
    let offline : Exchange := ⟨fun _ => .error (.badStatus 503), "Help"⟩
    let editing : Exchange := ⟨answering editText, "Fill it"⟩
    Element.validate start.tree = .ok () ∧ start.after [offline] = start ∧
    ∃ edited, start.after [offline, editing] = edited ∧
      edited.history = [⟨.user, "Fill it"⟩, ⟨.assistant, "Done"⟩] ∧
      edited.tree = [.node { id := "a", kind := .vstack } [.plain "b" .text]] ∧
      ∃ next, (edited.send (answering generationText) "Begin anew").1 = next ∧
        next.history = edited.history ++ [⟨.user, "Begin anew"⟩, ⟨.assistant, ""⟩] ∧
        next.tree = [.plain "c" .vstack] ∧ Element.validate next.tree = .ok () := by
  intro start offline editing
  have hStart : Element.validate start.tree = .ok () := rfl
  have hOffline : start.after [offline] = start :=
    (send_after start [] offline.assistant "Help").1 (.badStatus 503) rfl
  -- the second exchange finds everything as it was
  have hEditText : Document.read? editText = some (.object [("type", .string "edit"),
      ("message", .string "Done"), ("changes", .array [.object [("id", .string "a"),
        ("children", .array [.object [("id", .string "b"), ("type", .string "text")]])]])]) := rfl
  have hEdit : (start.send (answering editText) "Fill it").2.2 =
      .ok (.edit [(Change.target "a").setChildren [.plain "b" .text]] "Done") :=
    send_answering start "Fill it" hEditText rfl rfl rfl rfl
  have hSecond := (send_after start [offline] (answering editText) "Fill it").2.1
  rw [hOffline] at hSecond
  obtain ⟨hHistory, hTree⟩ := hSecond _ hEdit
  have hEdited : start.after [offline, editing] =
      (start.send (answering editText) "Fill it").1 := by
    show ((start.after [offline]).send (answering editText) "Fill it").1 = _
    rw [hOffline]
  rw [← hEdited] at hHistory hTree
  -- the third one replaces what the second one has made
  have hGenerationText : Document.read? generationText = some (.object [
      ("type", .string "generation"),
      ("elements", .array [.object [("id", .string "c"), ("type", .string "vstack")]])]) := rfl
  have hThird := send_after start [offline, editing] (answering generationText) "Begin anew"
  generalize start.after [offline, editing] = edited at hHistory hTree hThird ⊢
  have hGeneration : (edited.send (answering generationText) "Begin anew").2.2 =
      .ok (.generation [.plain "c" .vstack] "") :=
    send_answering edited "Begin anew" hGenerationText rfl rfl rfl rfl
  obtain ⟨hNextHistory, hNextTree⟩ := hThird.2.1 _ hGeneration
  exact ⟨hStart, hOffline, edited, rfl, hHistory, hTree, _, rfl, hNextHistory, hNextTree,
    hThird.2.2.1 hStart⟩

end Onboarding.Editor
