import Onboarding.Element.Basic

/-!
# Onboarding — redacted forests

Before a forest leaves for the assistant its layout positions are dropped and
properties that are inline assets, texts that start with `data:`, give way to a
placeholder. Only a property's own value is looked at, not what lies inside it.
-/

namespace Onboarding.Element

/-- What stands for an inline asset. -/
def assetPlaceholder : String := "[inline asset]"

/-- Whether a text is an inline asset. -/
def isInlineAsset (s : String) : Bool := (Text.cutHead? "data:".toList s.toList).isSome

/-- A property without its asset. -/
def redactValue : Json → Json
  | .string s => if isInlineAsset s then .string assetPlaceholder else .string s
  | v => v

/-- Attributes without assets and position. -/
def redactAttributes (a : Attributes) : Attributes :=
  { a with position := none, props := a.props.map redactValue }

/-- The forest without assets and positions. -/
def redact (roots : List Element) : List Element := roots.map (map redactAttributes)

end Onboarding.Element
