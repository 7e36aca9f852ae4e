import Onboarding.Flow.Screen
import Onboarding.Style.Resolved
import Onboarding.Selection
import Onboarding.Inputs
import Onboarding.Template

/-!
# Onboarding — rendering a screen

Rendering gives the visible part of a screen with its texts resolved. An element
is visible when its show rule holds and its gate is open; a hidden element hides
what is inside it. Text properties are templates. An input element shows the
text that waits under its key as the property `value`. A custom screen is
rendered only if the host knows its component.
-/

namespace Onboarding

/-- What a rendering depends on besides the screen. -/
structure View where
  vars : Variables
  selection : Selection
  inputs : Inputs
  /-- The components that the host knows. -/
  components : NameSet := ∅

/-- Whether an element is visible where the elements around it are. -/
def Attributes.isShown (a : Attributes) (v : View) : Bool :=
  (match a.showIf with
    | some condition => condition.holds v.vars
    | none => true) &&
  (match a.gate with
    | some gate => v.selection.opens gate
    | none => true)

/-- What a host draws for an element, besides its children. -/
structure Drawn where
  id : String
  kind : ElementKind
  style : TypedStyle
  props : Table Json
  selected : Bool
  hasAction : Bool

/-- A rendered element. -/
inductive Rendered where
  | node (drawn : Drawn) (children : List Rendered)

/-- A property with its template resolved. -/
def fillProp (vars : Variables) : Json → Json
  | .string s => .string (Template.resolve s vars)
  | v => v

/-- Properties with their templates resolved. -/
def fillProps (vars : Variables) (props : Table Json) : Table Json :=
  props.map (fillProp vars)

/-- What a host draws for an element. -/
def Attributes.draw (a : Attributes) (v : View) : Drawn where
  id := a.id
  kind := a.kind
  style := .ofTable a.style
  props :=
    let props := fillProps v.vars a.props
    -- a pending text hides the value that the properties give
    if a.kind = .input then
      match v.inputs.get? a.inputName with
      | some text => props.insert "value" (.string text)
      | none => props
    else props
  selected := v.selection.isOn a.id
  hasAction := a.acts

namespace Rendered

mutual

/-- The rendering of an element, if it is visible. -/
def render? (v : View) : Element → Option Rendered
  | .node a children =>
    if a.isShown v then some (node (a.draw v) (renderAll v children)) else none

/-- The renderings of the visible elements. -/
def renderAll (v : View) : List Element → List Rendered
  | [] => []
  | e :: rest =>
    match render? v e with
    | some r => r :: renderAll v rest
    | none => renderAll v rest

end

end Rendered

/-! ## Screens -/

/-- A rendered screen. -/
inductive ScreenRendering where
  | elements (screenId : String) (roots : List Rendered)
  | custom (screenId component : String) (props : Table Json)
  /-- The host does not know the component. -/
  | missingComponent (screenId component : String)

/-- The rendering of a screen. -/
def Screen.render (s : Screen) (v : View) : ScreenRendering :=
  match s.content with
  | .elements roots => .elements s.id (Rendered.renderAll v roots)
  | .custom component props =>
    if v.components.contains component then
      .custom s.id component (fillProps v.vars props)
    else .missingComponent s.id component

/-! ## JSON -/

mutual

/-- The JSON of a rendered element. -/
def Rendered.toJson : Rendered → Json
  | .node d children =>
    .object ([("id", .string d.id), ("kind", .string d.kind.name), ("style", d.style.toJson),
      ("props", Json.ofTable d.props), ("selected", .bool d.selected),
      ("has_action", .bool d.hasAction)] ++
      Json.memberIf (!children.isEmpty) "children" (.array (Rendered.toJsons children)))

/-- The JSON of every rendered element. -/
def Rendered.toJsons : List Rendered → List Json
  | [] => []
  | r :: rest => r.toJson :: Rendered.toJsons rest

end

namespace ScreenRendering

/-- What a host says about a component it does not know. -/
def missingMessage (component : String) : String :=
  "custom screen component '" ++ component ++ "' is not registered"

/-- The JSON of a rendered screen. -/
def toJson : ScreenRendering → Json
  | elements screenId roots =>
    .object [("kind", .string "elements"), ("screen_id", .string screenId),
      ("elements", .array (Rendered.toJsons roots))]
  | custom screenId component props =>
    .object [("kind", .string "custom"), ("screen_id", .string screenId),
      ("component", .string component), ("props", Json.ofTable props)]
  | missingComponent screenId component =>
    .object [("kind", .string "missing_component"), ("screen_id", .string screenId),
      ("component", .string component), ("message", .string (missingMessage component))]

end ScreenRendering

end Onboarding
