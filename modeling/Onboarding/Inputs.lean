import Onboarding.Variables

/-!
# Onboarding — pending inputs

Texts typed into input elements wait under their names until an action writes
all of them into the variables. Only the latest text of a name is kept.
-/

namespace Onboarding

/-- Texts that wait to become variables. -/
abbrev Inputs := Table String

namespace Inputs

/-- The variables with every pending text written. -/
def writtenTo (inputs : Inputs) (vars : Variables) : Variables :=
  vars.extend (inputs.map .string)

end Inputs

end Onboarding
