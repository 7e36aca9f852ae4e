import Onboarding.Selection
import Onboarding.Inputs

/-!
# Onboarding — dispatching actions

Dispatching an element runs its actions in order on variables, selection and
pending inputs. Every action is recorded and has its effects; of the departures
they ask for only the first is followed. Setting a variable writes the pending
inputs after it, navigating writes them before the destination is resolved. A
link that does not open is noted and changes nothing else.
-/

namespace Onboarding

/-! ## Links -/

/-- Why a link did not open. -/
inductive LinkError where
  | linkFailed (url reason : String)
deriving DecidableEq

/-- The wording of an error. -/
def LinkError.message : LinkError → String
  | linkFailed url reason => "Could not open " ++ url ++ ": " ++ reason

/-- What opens a link on the host. -/
abbrev LinkHandler := String → Except LinkError Unit

/-- A link that was opened, or not. -/
structure LinkAttempt where
  url : String
  failure : Option LinkError
deriving DecidableEq

/-! ## Outcomes -/

/-- Where a flow should go after a dispatch. -/
inductive Departure where
  | go (target : Target)
  | dismiss
deriving DecidableEq

/-- An action that was run. -/
structure ActionTrace where
  typeName : String
  elementId : String
  /-- The token of a navigating action, or `conditional` if it depends on variables. -/
  destination : Option String
deriving DecidableEq

/-- The token recorded for a destination that depends on variables. -/
def dependentToken : String := "conditional"

/-- What a dispatch did. -/
structure Outcome where
  records : List ActionTrace := []
  departure : Option Departure := none
deriving DecidableEq

/-- What actions work on. -/
structure Workspace where
  vars : Variables
  selection : Selection
  inputs : Inputs
  /-- The links that were tried, in order. -/
  links : List LinkAttempt := []

namespace Workspace

/-- Write the pending inputs into the variables. -/
def flush (w : Workspace) : Workspace :=
  { w with vars := w.inputs.writtenTo w.vars, inputs := ∅ }

end Workspace

/-! ## Actions -/

namespace Dispatch

/-- What the actions of one dispatch share. -/
structure Context where
  /-- The element that is acted on. -/
  elementId : String
  /-- Data that lies under the variables when a destination is resolved. -/
  collected : Table Json
  opener : LinkHandler

/-- The effect of an action. -/
def effect (ctx : Context) (w : Workspace) : Action → Workspace
  | .tap => w
  | .setVariable name value =>
    -- a pending text of the same name wins over the value
    ({ w with vars := w.vars.insert name value } : Workspace).flush
  | .toggle group => { w with selection := w.selection.apply (.toggle ctx.elementId group) }
  | .navigate _ => w.flush
  | .link url =>
    let failure := match ctx.opener url with
      | .ok () => none
      | .error e => some e
    { w with links := w.links ++ [⟨url, failure⟩] }
  | .dismiss => w

/-- The departure an action asks for, after its effect. A destination without an applicable
branch is the next screen. -/
def departure? (ctx : Context) (w : Workspace) : Action → Option Departure
  | .navigate destination =>
    some (.go ((destination.resolve (w.vars.overlay ctx.collected)).getD .next))
  | .dismiss => some .dismiss
  | _ => none

/-- The record of an action. -/
def record (ctx : Context) (a : Action) : ActionTrace where
  typeName := a.typeName
  elementId := ctx.elementId
  destination := match a with
    | .navigate destination => some (destination.token?.getD dependentToken)
    | _ => none

/-- Run actions in order. -/
def run (ctx : Context) : List Action → Workspace → Outcome → Workspace × Outcome
  | [], w, outcome => (w, outcome)
  | a :: rest, w, outcome =>
    let w := effect ctx w a
    run ctx rest w
      { records := outcome.records ++ [record ctx a]
        departure := outcome.departure.or (departure? ctx w a) }

end Dispatch

/-- Run the actions of an element: the single one first, then the listed ones. -/
def Element.dispatch (e : Element) (collected : Table Json) (opener : LinkHandler)
    (w : Workspace) : Workspace × Outcome :=
  Dispatch.run { elementId := e.id, collected, opener } e.attributes.actionList w {}

end Onboarding
