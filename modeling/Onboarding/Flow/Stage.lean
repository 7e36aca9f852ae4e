import Onboarding.Json.Record
import Onboarding.Number.Shortest

/-!
# Onboarding — the stage of a flow

A flow is loading, shows the screen at an index, or is over: completed,
abandoned or failed. `Stage.apply` says what an event does; an event that
does not fit the stage changes nothing.
-/

namespace Onboarding

/-- Where a flow is. -/
inductive Stage where
  | loading
  | ready (index : Nat)
  | completed
  | abandoned
  | failed (message : String)
deriving DecidableEq

/-- What happens to a flow. -/
inductive StageEvent where
  /-- The screens are known; so many can be shown. -/
  | loaded (screenCount : Nat)
  | loadFailed (message : String)
  | next
  | back
  | skip
  | leave
  /-- Go to the screen with this id, or on to the next one if there is none. -/
  | goTo (id : String)
deriving DecidableEq

namespace Stage

/-- The message of a flow without screens. -/
def noScreensMessage : String := "flow has no navigable screens"

/-- Whether a flow may get from one stage to another. -/
def canBecome : Stage → Stage → Bool
  | loading, ready _ | loading, failed _ => true
  | ready _, ready _ | ready _, completed | ready _, abandoned => true
  | _, _ => false

/-- Whether the flow is over. -/
def isOver : Stage → Bool
  | completed | abandoned | failed _ => true
  | _ => false

/-- The index of the screen that is shown. -/
def index? : Stage → Option Nat
  | ready index => some index
  | _ => none

/-- Indices are machine words. -/
def indexBound : Nat := Nat.pow 2 64

/-- The index that follows an index; it wraps around as words do. -/
def indexAfter (index : Nat) : Nat := (index + 1) % indexBound

/-- The stage after the screen at an index. -/
def following (index screenCount : Nat) : Stage :=
  if indexAfter index ≥ screenCount then completed else ready (indexAfter index)

/-- The stage after an event, in a flow of so many screens. -/
def apply (s : Stage) (event : StageEvent) (screenCount : Nat)
    (indexOf? : String → Option Nat) : Stage :=
  match s, event with
  | loading, .loaded 0 => failed noScreensMessage
  | loading, .loaded _ => ready 0
  | loading, .loadFailed message => failed message
  | ready index, .next => following index screenCount
  | ready index, .skip => following index screenCount
  | ready index, .back => ready (index - 1)
  | ready _, .leave => abandoned
  | ready index, .goTo id =>
    match indexOf? id with
    | some target => ready target
    | none => following index screenCount
  | s, _ => s

/-- The stage as text. -/
def text : Stage → String
  | loading => "loading"
  | ready index => "ready(" ++ String.ofList (Shortest.natText index) ++ ")"
  | completed => "completed"
  | abandoned => "abandoned"
  | failed message => "error: " ++ message

/-! ## JSON -/

/-- The names of the stages in their declared order. -/
def names : List String := ["loading", "ready", "completed", "abandoned", "error"]

/-- The stage a document says. -/
def ofDocument? (d : Document) : Option Stage :=
  (d.tagged? .direct "state" names).bind fun (tag, rest) =>
    match tag with
    | "loading" => if rest.isFieldless then some loading else none
    | "completed" => if rest.isFieldless then some completed else none
    | "abandoned" => if rest.isFieldless then some abandoned else none
    | "ready" => do
      let ms ← rest.record? ["index"]
      let index ← ms.required "index" Document.toNat?
      some (ready index)
    | "error" => do
      let ms ← rest.record? ["message"]
      let message ← ms.required "message" Document.toString?
      some (failed message)
    | _ => none

/-- The JSON of a stage. -/
def toJson : Stage → Json
  | loading => .object [("state", .string "loading")]
  | ready index => .object [("state", .string "ready"), ("index", .int index)]
  | completed => .object [("state", .string "completed")]
  | abandoned => .object [("state", .string "abandoned")]
  | failed message => .object [("state", .string "error"), ("message", .string message)]

end Stage

end Onboarding
