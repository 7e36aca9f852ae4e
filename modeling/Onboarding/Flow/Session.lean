import Onboarding.Flow.Stage
import Onboarding.Flow.Render
import Onboarding.Element.Validity
import Onboarding.Dispatch
import Onboarding.Source.Basic
import Onboarding.Analytics.Record

/-!
# Onboarding — sessions

A session is one user's pass through a flow. It holds the screens that can be
shown, the variables, the data that custom screens gave, the selection and the
pending inputs. What it tells the outside is kept in a journal: milestones,
analytics records, the links it tried and the variants it asked for.

Every operation is a function from sessions to sessions. An operation that does
not fit the session's stage gives an error and the same session.

## Results

* `Session.enterText_error`, `Session.dispatch_error` — an operation that fails
  changes nothing.
-/

namespace Onboarding

/-! ## What a session says -/

/-- Why an operation on a session failed. -/
inductive SessionError where
  | loadFailed (reason : String)
  | noScreens
  | notReady (stage : String)
  | elementNotFound (id screenId : String)
  | notCustomScreen (screenId : String)
deriving DecidableEq

/-- The wording of an error. -/
def SessionError.message : SessionError → String
  | loadFailed reason => "Flow failed to load: " ++ reason
  | noScreens => "Flow has no navigable screens"
  | notReady stage => "Flow is not ready (state: " ++ stage ++ ")"
  | elementNotFound id screenId => "Element " ++ id ++ " not found on screen " ++ screenId
  | notCustomScreen screenId => "Screen " ++ screenId ++ " is not a custom component screen"

/-- A turn in the life of a session. -/
inductive Milestone where
  | started (screenCount : Nat)
  | screenViewed (screenId : String) (index : Nat)
  | completed (payload : Table Json)
  | abandoned (screenId : Option String)

/-- The JSON of a milestone. -/
def Milestone.toJson : Milestone → Json
  | started n => .object [("event", .string "started"), ("screen_count", .int n)]
  | screenViewed id index =>
    .object [("event", .string "screen_viewed"), ("screen_id", .string id), ("index", .int index)]
  | completed payload => .object [("event", .string "completed"), ("payload", Json.ofTable payload)]
  | abandoned id =>
    .object [("event", .string "abandoned"), ("screen_id", Json.orNull .string id)]

/-- What a session has told the outside, in order. -/
structure Journal where
  milestones : List Milestone := []
  records : List Record := []
  links : List LinkAttempt := []
  /-- The experiments and users that a variant was asked for. -/
  queries : List (String × String) := []

/-! ## Sessions -/

/-- The key of the variables in the data of a completed flow. -/
def variablesMember : String := "_variables"

/-- One user's pass through a flow. -/
structure Session where
  user : String
  screens : List Screen := []
  stage : Stage := .loading
  variant : Option String := none
  collected : Table Json := ∅
  vars : Variables := ∅
  selection : Selection := {}
  inputs : Inputs := ∅
  components : NameSet := ∅
  /-- Whether analytics records are wanted. -/
  hasAnalytics : Bool := false
  opener : LinkHandler := fun _ => .ok ()
  /-- The data of the completed flow. -/
  completion : Option (Table Json) := none
  journal : Journal := {}

namespace Session

/-- The screen that is shown. -/
def shownScreen? (s : Session) : Option Screen := s.stage.index?.bind fun i => s.screens[i]?

/-- The id of the screen that is shown. -/
def shownId? (s : Session) : Option String := s.shownScreen?.map Screen.id

/-- The index of a screen. -/
def indexOf? (s : Session) (id : String) : Option Nat :=
  s.screens.findIdx? fun screen => screen.id = id

/-- The variables over the collected data. -/
def allVariables (s : Session) : Variables := s.vars.overlay s.collected

/-- The error of an operation that does not fit the stage. -/
def stageError (s : Session) : SessionError := .notReady s.stage.text

/-! ## The journal -/

/-- Tell a milestone. -/
def tell (s : Session) (m : Milestone) : Session :=
  { s with journal := { s.journal with milestones := s.journal.milestones ++ [m] } }

/-- Track a record, if records are wanted. -/
def track (s : Session) (event : String) (properties : Json) : Session :=
  if s.hasAnalytics then
    { s with journal :=
      { s.journal with records := s.journal.records ++ [⟨event, s.user, properties⟩] } }
  else s

/-! ## Changes of stage -/

/-- Say that the current screen is shown. -/
def enterScreen (s : Session) : Session :=
  match s.stage.index? with
  | none => s
  | some index =>
    match s.screens[index]? with
    | none => s
    | some screen =>
      (s.track Record.screenViewed
        (.object [("screen_id", .string screen.id), ("index", .int index)])).tell
        (.screenViewed screen.id index)

/-- The data of the flow as it stands: what was collected, and the variables under their key. -/
def payload (s : Session) : Table Json :=
  s.collected.insert variablesMember (Json.ofTable s.vars)

/-- Keep the data of the completed flow, once. -/
def complete (s : Session) : Session :=
  if s.completion.isSome then s
  else
    let payload := s.payload
    let s := s.track Record.flowCompleted (.object [("screen_count", .int s.screens.length)])
    let s := s.tell (.completed payload)
    { s with completion := some payload }

/-- Say which screen the flow was left on. -/
def abandon (s : Session) (screenId : Option String) : Session :=
  (s.track Record.flowAbandoned (.object [("screen_id", Json.orNull .string screenId)])).tell
    (.abandoned screenId)

/-- Let an event happen. An event that changes nothing is not told. -/
def happen (s : Session) (event : StageEvent) : Session :=
  let next := s.stage.apply event s.screens.length s.indexOf?
  if next = s.stage then s
  else
    -- the screen that is left, before the stage changes
    let left := s.shownId?
    let s := { s with stage := next }
    match next with
    | .ready _ => s.enterScreen
    | .completed => s.complete
    | .abandoned => s.abandon left
    | .loading | .failed _ => s

/-- Go to the next screen. -/
def next (s : Session) : Session := s.happen .next

/-- Go back one screen. -/
def back (s : Session) : Session := s.happen .back

/-- Skip the screen. -/
def skip (s : Session) : Session := s.happen .skip

/-- Leave the flow. -/
def leave (s : Session) : Session := s.happen .leave

/-- Go to a screen. -/
def goTo (s : Session) (id : String) : Session := s.happen (.goTo id)

/-! ## Loading -/

/-- Enter a flow with its screens. Malformed element forests are shown all the same. -/
def enter (s : Session) (screens : List Screen) : Session × Except SessionError Unit :=
  if s.stage ≠ .loading then (s, .error s.stageError)
  else
    let shown := screens.filter fun screen => !screen.hidden
    let stage := s.stage.apply (.loaded shown.length) shown.length fun _ => none
    let s := { s with screens := shown, stage }
    if shown.isEmpty then (s, .error .noScreens)
    else
      let properties := [("screen_count", Json.int shown.length)] ++
        Json.optionalMember "variant" (s.variant.map .string)
      let s := (s.track Record.flowStarted (.object properties)).tell (.started shown.length)
      (s.enterScreen, .ok ())

/-- The screens for a user: those of the variant of the first experiment, if there is one. -/
def chooseVariant (s : Session) (source : Source) (flow : Flow) : Session × List Screen :=
  match flow.experiments with
  | [] => (s, flow.screens)
  | experiment :: _ =>
    let s := { s with journal :=
      { s.journal with queries := s.journal.queries ++ [(experiment.id, s.user)] } }
    match source.assign experiment.id s.user with
    | .ok (some variant) => ({ s with variant := some variant.name }, variant.screens)
    -- neither a missing variant nor an error keeps the flow from starting
    | _ => (s, flow.screens)

/-- Fetch the flow from a source and enter it. -/
def start (s : Session) (source : Source) : Session × Except SessionError Unit :=
  if s.stage ≠ .loading then (s, .error s.stageError)
  else
    match source.fetch with
    | .error e =>
      let stage := s.stage.apply (.loadFailed e.message) 0 fun _ => none
      ({ s with stage }, .error (.loadFailed e.message))
    | .ok flow =>
      let (s, screens) := s.chooseVariant source flow
      s.enter screens

/-! ## Acting on the current screen -/

/-- An element of the current screen. -/
def currentElement (s : Session) (id : String) : Except SessionError Element :=
  match s.shownScreen? with
  | none => .error s.stageError
  | some screen =>
    match Element.find? screen.roots id with
    | some e => .ok e
    | none => .error (.elementNotFound id screen.id)

/-- Keep a text typed into an element. -/
def enterText (s : Session) (id text : String) : Session × Except SessionError Unit :=
  match s.currentElement id with
  | .error e => (s, .error e)
  | .ok e => ({ s with inputs := s.inputs.insert e.attributes.inputName text }, .ok ())

/-- The properties of an action's record. -/
def actionProperties (screenId : String) (r : ActionTrace) : Json :=
  .object ([("screen_id", .string screenId), ("element_id", .string r.elementId),
    ("action_type", .string r.typeName)] ++
    Json.optionalMember "destination" (r.destination.map .string))

/-- Track the record of every action. -/
def trackActions (s : Session) (screenId : String) : List ActionTrace → Session
  | [] => s
  | r :: rest =>
    trackActions (s.track Record.actionTriggered (actionProperties screenId r)) screenId rest

/-- Go where a dispatch asks to go. -/
def follow (s : Session) : Option Departure → Session
  | none => s
  | some (.go .next) => s.next
  | some (.go .previous) => s.back
  | some (.go (.screen id)) => s.goTo id
  | some .dismiss => s.leave

/-- Run the actions of an element and follow the first departure. -/
def dispatch (s : Session) (id : String) : Session × Except SessionError Outcome :=
  match s.currentElement id with
  | .error e => (s, .error e)
  | .ok e =>
    let screenId := s.shownId?.getD ""
    let (w, outcome) := e.dispatch s.collected s.opener
      { vars := s.vars, selection := s.selection, inputs := s.inputs }
    let s := { s with
      vars := w.vars
      selection := w.selection
      inputs := w.inputs
      journal := { s.journal with links := s.journal.links ++ w.links } }
    ((s.trackActions screenId outcome.records).follow outcome.departure, .ok outcome)

/-- Take the data of a custom screen and go on. -/
def completeCustom (s : Session) (data : Table Json) : Session × Except SessionError Unit :=
  match s.shownScreen? with
  | none => (s, .error s.stageError)
  | some screen =>
    if screen.isCustom then
      let s := { s with
        collected := s.collected.extend data
        vars := s.vars.extend data }
      (s.next, .ok ())
    else (s, .error (.notCustomScreen screen.id))

/-- The rendering of the current screen. -/
def render? (s : Session) : Option ScreenRendering :=
  s.shownScreen?.map fun screen => screen.render
    { vars := s.allVariables
      selection := s.selection
      inputs := s.inputs
      components := s.components }

/-! ## Failures change nothing -/

theorem enterText_error {s : Session} {id text : String} {e : SessionError}
    (h : (s.enterText id text).2 = .error e) : (s.enterText id text).1 = s := by
  unfold enterText at h ⊢
  cases hc : s.currentElement id <;> simp_all

theorem dispatch_error {s : Session} {id : String} {e : SessionError}
    (h : (s.dispatch id).2 = .error e) : (s.dispatch id).1 = s := by
  unfold dispatch at h ⊢
  cases hc : s.currentElement id <;> simp_all

end Session

end Onboarding
