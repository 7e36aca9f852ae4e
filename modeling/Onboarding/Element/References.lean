import Onboarding.Element.Walk
import Onboarding.Template

/-!
# Onboarding — the variables of a forest

A forest refers to a variable where a show rule names it, where it is a token
of a text property, where an action sets it, and where an input element keeps
its text under that name.
-/

namespace Onboarding

/-- The variable that an action sets. -/
def Action.variableSet? : Action → Option String
  | .setVariable name _ => some name
  | _ => none

namespace Attributes

/-- The variables that an element itself refers to. -/
def references (a : Attributes) : List String :=
  (a.showIf.map Condition.variableNames).getD [] ++
    a.props.values.flatMap (fun v => (v.toString?.map Template.tokens).getD []) ++
    a.actionList.filterMap Action.variableSet? ++
    (if a.kind = .input then [a.inputName] else [])

end Attributes

/-- The variables that a forest refers to. -/
def Element.variablesOf (roots : List Element) : NameSet :=
  walk (fun (s : NameSet) e _ => (s.addAll e.attributes.references, .proceed)) ∅ roots

end Onboarding
