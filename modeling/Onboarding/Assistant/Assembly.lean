import Onboarding.Assistant.Reply
import Onboarding.Assistant.Repair
import Onboarding.Assistant.FieldScanner
import Onboarding.Assistant.Framing
import Onboarding.Element.Validity

/-!
# Onboarding — assembling a reply from a stream

An assembly gathers the chunks of one streamed reply. It tells the kind of the
reply as soon as its type has arrived, and reads the reply when the stream has
ended. Only a stream that says it was cut off is repaired.

## Results

* `Assembly.pushAll_text` — the text of an assembly is that of its chunks.
-/

namespace Onboarding

/-- Why an exchange with the assistant failed. -/
inductive ExchangeError where
  | requestFailed (reason : String)
  | badStatus (status : Nat)
  | stream (reason : String)
  | noDocument
  | parse
  | unrepairable
  | invalidTree (cause : ForestError)
deriving DecidableEq

/-- The wording of an error. -/
def ExchangeError.message : ExchangeError → String
  | requestFailed reason => "Generation request failed: " ++ reason
  | badStatus status =>
    "Generation endpoint returned HTTP " ++ String.ofList (Nat.toDigits 10 status)
  | stream reason => "Generation stream failed: " ++ reason
  | noDocument => "Response contains no JSON document"
  | parse => "Could not parse response: the document is no response"
  | unrepairable => "Truncated response could not be repaired: the document is no response"
  | invalidTree cause => "Response produced an invalid element tree: " ++ cause.message

/-- What has arrived of a reply. -/
structure Assembly where
  text : List Char := []
  scanner : FieldScanner := .ofKey "type"
  kind : Option ReplyKind := none

namespace Assembly

/-- Take a chunk; the kind of the reply if it is known for the first time. -/
def push (a : Assembly) (chunk : List Char) : Assembly × Option ReplyKind :=
  let (scanner, value) := a.scanner.push chunk
  let kind := value.bind fun name => ReplyKind.ofName? (String.ofList name)
  ({ text := a.text ++ chunk, scanner, kind := kind.or a.kind }, kind)

/-- Take the chunks in turn; the kinds they tell. -/
def pushAll (a : Assembly) : List (List Char) → Assembly × List (Option ReplyKind)
  | [] => (a, [])
  | chunk :: rest =>
    let (next, kind) := a.push chunk
    let (last, kinds) := pushAll next rest
    (last, kind :: kinds)

/-- The reply of a document, repaired if the stream was cut off. -/
def readDocument (candidate : List Char) (ending : Framing.Ending) :
    Except ExchangeError Reply :=
  match Reply.read? candidate with
  | some reply => .ok reply
  | none =>
    if ending = .truncated then
      match Reply.read? (Repair.repair candidate) with
      | some reply => .ok reply
      | none => .error .unrepairable
    else .error .parse

/-- The reply of a whole stream. -/
def readStream (text : List Char) : Except ExchangeError Reply :=
  let (body, ending) := Framing.splitMark text
  match Framing.outerObject? (Framing.unfence body) with
  | none => .error .noDocument
  | some candidate => readDocument candidate ending

/-- The reply when no more chunks come. -/
def finish (a : Assembly) : Except ExchangeError Reply := readStream a.text

/-- The text of an assembly is that of its chunks. -/
theorem pushAll_text (a : Assembly) (chunks : List (List Char)) :
    (a.pushAll chunks).1.text = a.text ++ chunks.flatten := by
  induction chunks generalizing a with
  | nil => simp [pushAll]
  | cons chunk rest ih => simp [pushAll, ih, push]

end Assembly

end Onboarding
