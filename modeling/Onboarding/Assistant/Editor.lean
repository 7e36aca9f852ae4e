import Onboarding.Assistant.Assembly
import Onboarding.Change.Merge
import Onboarding.Element.Redaction

/-!
# Onboarding — editing a forest with the assistant

An editor holds the forest that is being edited and the conversation so far. An
exchange sends a prompt with the redacted forest and the conversation, and
applies the reply. An exchange that fails, or that would make the forest
invalid, leaves the editor as it was.

## Results

* `Editor.send_error` — a failed exchange changes nothing.
-/

namespace Onboarding

/-! ## The conversation -/

/-- Who says something. -/
inductive Speaker where
  | user
  | assistant
deriving DecidableEq

namespace Speaker

/-- The name of a speaker. -/
def name : Speaker → String
  | user => "user"
  | assistant => "assistant"

/-- The speaker of a name. -/
def ofName? : String → Option Speaker
  | "user" => some user
  | "assistant" => some assistant
  | _ => none

end Speaker

/-- One thing said. -/
structure Utterance where
  speaker : Speaker
  content : String
deriving DecidableEq

namespace Utterance

/-- The utterance a document says. -/
def ofDocument? (d : Document) : Option Utterance := do
  let ms ← d.record? ["role", "content"]
  let speaker ← ms.required "role" fun d => (d.name? .direct).bind Speaker.ofName?
  let content ← ms.required "content" Document.toString?
  some ⟨speaker, content⟩

/-- The JSON of an utterance. -/
def toJson (t : Utterance) : Json :=
  .object [("role", .string t.speaker.name), ("content", .string t.content)]

end Utterance

/-- What the assistant is asked. -/
structure Inquiry where
  prompt : String
  tree : List Element
  history : List Utterance
  variableNames : List String
  assets : List String

/-- The JSON of an inquiry. -/
def Inquiry.toJson (r : Inquiry) : Json :=
  .object [("prompt", .string r.prompt), ("tree", Element.forestToJson r.tree),
    ("history", .array (r.history.map Utterance.toJson)),
    ("variables", Json.strings r.variableNames), ("assets", Json.strings r.assets)]

/-- What answers inquiries: a stream of chunks, any of which may be an error, or an error at
once. -/
abbrev Assistant := Inquiry → Except ExchangeError (List (Except ExchangeError (List Char)))

/-! ## The editor -/

/-- A forest that is edited with the assistant. -/
structure Editor where
  tree : List Element
  history : List Utterance := []
  /-- The variables that the assistant may use. -/
  variableNames : List String := []
  /-- The assets that the assistant may use. -/
  assets : List String := []

namespace Editor

/-- The inquiry of a prompt. -/
def inquiry (e : Editor) (prompt : String) : Inquiry where
  prompt := prompt
  tree := Element.redact e.tree
  history := e.history
  variableNames := e.variableNames
  assets := e.assets

/-- Gather a stream; the kinds that it tells, and the assembly unless the stream fails. -/
def gather (a : Assembly) :
    List (Except ExchangeError (List Char)) → List ReplyKind × Except ExchangeError Assembly
  | [] => ([], .ok a)
  | .error e :: _ => ([], .error e)
  | .ok chunk :: rest =>
    let (next, kind) := a.push chunk
    let (kinds, result) := gather next rest
    (kind.toList ++ kinds, result)

/-- The forest that a reply makes. -/
def treeOf (tree : List Element) : Reply → List Element
  | .message _ => tree
  | .edit changes _ => Change.merge tree changes
  | .generation roots _ => roots

/-- The forest that a reply makes, if it is valid. A message makes none. -/
def apply (tree : List Element) (reply : Reply) : Except ExchangeError (List Element) :=
  match reply with
  | .message _ => .ok tree
  | _ =>
    match Element.validate (treeOf tree reply) with
    | .ok () => .ok (treeOf tree reply)
    | .error cause => .error (.invalidTree cause)

/-- The reply of a stream and the forest it makes. -/
def receive (e : Editor) (stream : List (Except ExchangeError (List Char))) :
    List ReplyKind × Except ExchangeError (Reply × List Element) :=
  let (kinds, assembly) := gather {} stream
  (kinds, do
    let reply ← (← assembly).finish
    let tree ← apply e.tree reply
    pure (reply, tree))

/-- One exchange: the editor after it, the kinds that were told, and the reply. -/
def send (e : Editor) (assistant : Assistant) (prompt : String) :
    Editor × List ReplyKind × Except ExchangeError Reply :=
  match assistant (e.inquiry prompt) with
  | .error error => (e, [], .error error)
  | .ok stream =>
    match e.receive stream with
    | (kinds, .error error) => (e, kinds, .error error)
    | (kinds, .ok (reply, tree)) =>
      let said := [⟨.user, prompt⟩, ⟨.assistant, reply.text⟩]
      ({ e with tree, history := e.history ++ said }, kinds, .ok reply)

/-- A failed exchange changes nothing. -/
theorem send_error {e : Editor} {assistant : Assistant} {prompt : String} {error : ExchangeError}
    (h : (e.send assistant prompt).2.2 = .error error) : (e.send assistant prompt).1 = e := by
  unfold send at h ⊢
  split
  · rfl
  · split
    · rfl
    · simp_all

end Editor

end Onboarding
