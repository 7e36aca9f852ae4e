import Onboarding.Change.Wire
import Onboarding.Json.Reader

/-!
# Onboarding — replies of the assistant

A reply is a message, an edit of the forest, or a newly generated forest. It is
a JSON record tagged by `type`, so that its changes and elements are read as
parts of a tagged record; what it does not say is empty.

## Results

* `Reply.kind_of_ofRest?` — a reply that is read has the kind of its tag.
-/

namespace Onboarding

/-- What a reply is. -/
inductive ReplyKind where
  | message
  | edit
  | generation
deriving DecidableEq

namespace ReplyKind

/-- The name of a kind. -/
def name : ReplyKind → String
  | message => "message"
  | edit => "edit"
  | generation => "generation"

/-- The names of the kinds in their declared order. -/
def names : List String := ["message", "edit", "generation"]

/-- The kind of a name. -/
def ofName? : String → Option ReplyKind
  | "message" => some message
  | "edit" => some edit
  | "generation" => some generation
  | _ => none

end ReplyKind

/-- A reply of the assistant. -/
inductive Reply where
  | message (content : String)
  | edit (changes : List Change) (text : String)
  | generation (roots : List Element) (text : String)

namespace Reply

/-- The kind of a reply. -/
def kind : Reply → ReplyKind
  | message _ => .message
  | edit .. => .edit
  | generation .. => .generation

/-- The text to show beside what a reply does. -/
def text : Reply → String
  | message content => content
  | edit _ text => text
  | generation _ text => text

/-- The alternative of a kind with the rest of its record. -/
def ofRest? (rest : Document) : ReplyKind → Option Reply
  | .message => do
    let ms ← rest.record? ["content"]
    let content ← ms.withDefault "content" "" Document.toString?
    some (message content)
  | .edit => do
    let ms ← rest.record? ["changes", "message"]
    let changes ← ms.withDefault "changes" [] (Document.list? (Change.ofDocument? .tagged))
    let text ← ms.withDefault "message" "" Document.toString?
    some (edit changes text)
  | .generation => do
    let ms ← rest.record? ["elements", "message"]
    let roots ← ms.withDefault "elements" [] (Document.list? (Element.ofDocument? .tagged))
    let text ← ms.withDefault "message" "" Document.toString?
    some (generation roots text)

/-- The reply a document says. -/
def ofDocument? (d : Document) : Option Reply :=
  (d.tagged? .direct "type" ReplyKind.names).bind fun (tag, rest) =>
    (ReplyKind.ofName? tag).bind (ofRest? rest)

/-- The reply a text is. -/
def read? (s : List Char) : Option Reply := (Document.read? s).bind ofDocument?

/-- The JSON of a reply. -/
def toJson : Reply → Json
  | message content => .object [("type", .string "message"), ("content", .string content)]
  | edit changes text =>
    .object [("type", .string "edit"), ("changes", .array (changes.map Change.toJson)),
      ("message", .string text)]
  | generation roots text =>
    .object [("type", .string "generation"), ("elements", Element.forestToJson roots),
      ("message", .string text)]

/-- A reply that is read has the kind of its tag. -/
theorem kind_of_ofRest? {rest : Document} {kind : ReplyKind} {r : Reply}
    (h : ofRest? rest kind = some r) : r.kind = kind := by
  cases kind
  all_goals
    simp only [ofRest?, Option.bind_eq_bind, Option.bind_eq_some_iff, Option.some.injEq] at h
  · obtain ⟨_, _, _, _, rfl⟩ := h
    rfl
  · obtain ⟨_, _, _, _, _, _, rfl⟩ := h
    rfl
  · obtain ⟨_, _, _, _, _, _, rfl⟩ := h
    rfl

end Reply

end Onboarding
