import Onboarding.Json.Record

/-!
# Onboarding — analytics records

A record says what happened in a user's session, with properties of the event.
-/

namespace Onboarding

/-- One analytics event. -/
structure Record where
  event : String
  user : String
  properties : Json

namespace Record

/-- The name of an event. -/
def flowStarted : String := "flow_started"

@[inherit_doc flowStarted]
def screenViewed : String := "screen_viewed"

@[inherit_doc flowStarted]
def actionTriggered : String := "action_triggered"

@[inherit_doc flowStarted]
def flowCompleted : String := "flow_completed"

@[inherit_doc flowStarted]
def flowAbandoned : String := "flow_abandoned"

/-- The event of a record as JSON; whose it is stands elsewhere. -/
def toJson (r : Record) : Json :=
  .object [("event", .string r.event), ("properties", r.properties)]

end Record

end Onboarding
