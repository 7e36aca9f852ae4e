import Onboarding.Settings
import Onboarding.Flow.Session
import Onboarding.Analytics.Buffer
import Onboarding.Assistant.Assembly

/-!
# Onboarding — failures

Every part has errors of its own. A `Failure` is one of them together with the
part it comes from, which its wording names first.
-/

namespace Onboarding

/-- An error of some part. -/
inductive Failure where
  | settings (cause : SettingsError)
  | source (cause : FetchError)
  | flow (cause : SessionError)
  | tree (cause : ForestError)
  | analytics (cause : DeliveryError)
  | assist (cause : ExchangeError)

namespace Failure

/-- The part that failed. -/
def part : Failure → String
  | settings _ => "Configuration error"
  | source _ => "Screen source error"
  | flow _ => "Flow error"
  | tree _ => "Element tree error"
  | analytics _ => "Analytics error"
  | assist _ => "Assist error"

/-- The wording of the error alone. -/
def detail : Failure → String
  | settings cause => cause.message
  | source cause => cause.message
  | flow cause => cause.message
  | tree cause => cause.message
  | analytics cause => cause.message
  | assist cause => cause.message

/-- The wording with the part in front. -/
def message (f : Failure) : String := f.part ++ ": " ++ f.detail

end Failure

end Onboarding
