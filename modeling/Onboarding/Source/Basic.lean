import Onboarding.Flow.Screen
import Onboarding.Json.Reader
import Onboarding.Json.Writer

/-!
# Onboarding — sources of screens

A source supplies the flow and, for a user and an experiment, a variant of it.
Both answers may be errors.
-/

namespace Onboarding

/-- Why a source did not answer. -/
inductive FetchError where
  | requestFailed (url reason : String)
  | badStatus (url : String) (status : Nat)
  /-- There is no flow at the address. -/
  | empty (url : String) (status : Nat)
  | invalidPayload (reason : String)
  /-- The source failed and nothing was remembered. -/
  | noCache (cause : FetchError)
  /-- A text that is no flow. -/
  | json (detail : String)
  /-- A file that cannot be read. -/
  | io (detail : String)
deriving DecidableEq

namespace FetchError

/-- A natural number as text. -/
def numberText (n : Nat) : String := String.ofList (Shortest.natText n)

/-- The wording of an error. -/
def message : FetchError → String
  | requestFailed url reason => "Request to " ++ url ++ " failed: " ++ reason
  | badStatus url status => "Screen source returned HTTP " ++ numberText status ++ " for " ++ url
  | empty url status =>
    "Screen source at " ++ url ++ " has no flow (HTTP " ++ numberText status ++ ")"
  | invalidPayload reason => "Invalid screen definitions: " ++ reason
  | noCache cause => "No cached screen source available after: " ++ cause.message
  | json detail => "JSON error: " ++ detail
  | io detail => "IO error: " ++ detail

end FetchError

/-- What a source answers. -/
structure Source where
  fetch : Except FetchError Flow
  /-- The variant of an experiment for a user; without one the flow's own screens are shown. -/
  assign : (experiment user : String) → Except FetchError (Option Variant) :=
    fun _ _ => .ok none

/-- The flow that a file's text is. -/
def Flow.read (text : String) : Except FetchError Flow :=
  match (Document.read? text.toList).bind Flow.ofDocument? with
  | some flow => .ok flow
  | none => .error (.json "the text is not a flow")

/-- The text of a flow. -/
def Flow.write (flow : Flow) : String := flow.toJson.compactText

/-- A source that reads a file, whose text is given if it can be read. -/
def Source.ofFile (text : Option String) : Source where
  fetch := match text with
    | some text => Flow.read text
    | none => .error (.io "the file cannot be read")

end Onboarding
