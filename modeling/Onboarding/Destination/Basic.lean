import Onboarding.Condition.Basic

/-!
# Onboarding — destinations

A destination says where a flow goes next: a token, a table of routes of which
the first with a holding condition counts, or a branch on a condition. A branch
without its other side may lead nowhere.
-/

namespace Onboarding

/-! ## Targets -/

/-- A place to go to. -/
inductive Target where
  | next
  | previous
  | screen (id : String)
deriving DecidableEq

namespace Target

/-- The target of a token; a token that is not a direction is the id of a screen. -/
def ofToken : String → Target
  | "next" => next
  | "previous" => previous
  | id => screen id

/-- The token of a target. -/
def token : Target → String
  | next => "next"
  | previous => "previous"
  | screen id => id

end Target

/-! ## Destinations -/

/-- Where to go, possibly depending on variables. -/
inductive Destination where
  | literal (token : String)
  | routed (routes : List (Condition × Destination)) (fallback : Destination)
  | branch (condition : Condition) (target : Destination) (otherwise : Option Destination)

namespace Destination

instance : Inhabited Destination := ⟨literal ""⟩

/-- The token of a destination that depends on nothing. -/
def token? : Destination → Option String
  | literal token => some token
  | _ => none

mutual

/-- The target of a destination, if one of its branches applies. -/
def resolve (vars : Variables) : Destination → Option Target
  | literal token => some (.ofToken token)
  | branch condition target none => if condition.holds vars then resolve vars target else none
  | branch condition target (some otherwise) =>
    if condition.holds vars then resolve vars target else resolve vars otherwise
  | routed routes fallback =>
    match resolveRoutes vars routes with
    | some target => target
    | none => resolve vars fallback

/-- What the first route that holds resolves to, `none` if no route holds. -/
def resolveRoutes (vars : Variables) : List (Condition × Destination) → Option (Option Target)
  | [] => none
  | (condition, destination) :: rest =>
    if condition.holds vars then some (resolve vars destination) else resolveRoutes vars rest

end

end Destination

end Onboarding
