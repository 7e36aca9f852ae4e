import Onboarding.Destination.Basic

/-!
# Onboarding — elements

A screen shows a forest of elements. An element has an identity, a kind, free
style and content properties, actions, visibility rules and children. Its own
attributes are kept apart from its children, so that an operation says at once
which of the two it touches.

## Results

* `Element.documents_eq`, `Element.map_eq` — the recursion on children, as list
  functions.
-/

namespace Onboarding

/-! ## Kinds -/

/-- What an element is. -/
inductive ElementKind where
  | vstack
  | hstack
  | zstack
  | scrollview
  | text
  | image
  | video
  | lottie
  | icon
  | input
  | spacer
  | divider
deriving DecidableEq

namespace ElementKind

/-- Whether elements of the kind may have children. -/
def holdsChildren : ElementKind → Bool
  | vstack | hstack | zstack | scrollview => true
  | text | image | video | lottie | icon | input | spacer | divider => false

/-- The name of a kind. -/
def name : ElementKind → String
  | vstack => "vstack"
  | hstack => "hstack"
  | zstack => "zstack"
  | scrollview => "scrollview"
  | text => "text"
  | image => "image"
  | video => "video"
  | lottie => "lottie"
  | icon => "icon"
  | input => "input"
  | spacer => "spacer"
  | divider => "divider"

/-- The kind of a name. -/
def ofName? : String → Option ElementKind
  | "vstack" => some vstack
  | "hstack" => some hstack
  | "zstack" => some zstack
  | "scrollview" => some scrollview
  | "text" => some text
  | "image" => some image
  | "video" => some video
  | "lottie" => some lottie
  | "icon" => some icon
  | "input" => some input
  | "spacer" => some spacer
  | "divider" => some divider
  | _ => none

theorem ofName?_name (kind : ElementKind) : ofName? kind.name = some kind := by
  cases kind <;> rfl

end ElementKind

/-! ## Behaviour -/

/-- What happens when a user acts on an element. -/
inductive Action where
  | tap
  | navigate (destination : Destination)
  /-- Toggles the element itself; of a group at most one element is selected. -/
  | toggle (group : Option String)
  | setVariable (name : String) (value : Json)
  | link (url : String)
  | dismiss

namespace Action

/-- The name of an action's type. -/
def typeName : Action → String
  | tap => "tap"
  | navigate _ => "navigate"
  | toggle _ => "toggle"
  | setVariable .. => "set_variable"
  | link _ => "link"
  | dismiss => "dismiss"

/-- The names of the types in their declared order. -/
def typeNames : List String := ["tap", "navigate", "toggle", "set_variable", "link", "dismiss"]

end Action

/-- Visibility that depends on the selection in a toggle group. -/
structure Gate where
  group : String
  /-- The element that must be selected; any selection will do if there is none. -/
  selected : Option String
deriving DecidableEq

/-- Visibility that depends on variables. -/
structure ShowRule where
  showIf : Option Condition

/-! ## Elements -/

/-- What an element is besides its children. -/
structure Attributes where
  id : String
  kind : ElementKind
  style : Table Json := ∅
  props : Table Json := ∅
  /-- A layout position that only the host understands. -/
  position : Option Json := none
  action : Option Action := none
  actions : Option (List Action) := none
  gate : Option Gate := none
  showRule : Option ShowRule := none
  entrance : Option Json := none
  textAnimation : Option Json := none
  interactive : Option Json := none

namespace Attributes

/-- The single action first, then the listed ones. -/
def actionList (a : Attributes) : List Action := a.action.toList ++ a.actions.getD []

/-- Whether there is anything to do. -/
def acts (a : Attributes) : Bool := !a.actionList.isEmpty

/-- The condition under which the element is shown. -/
def showIf (a : Attributes) : Option Condition := a.showRule.bind ShowRule.showIf

/-- The name under which the text of an input element is kept: its property `variable` if that is
a text that is not empty, else its id. -/
def inputName (a : Attributes) : String :=
  match (a.props.get? "variable").bind Json.toString? with
  | some name => if name.isEmpty then a.id else name
  | none => a.id

end Attributes

/-- An element and what it contains. -/
inductive Element where
  | node (attributes : Attributes) (children : List Element)

namespace Element

/-- The element without its children. -/
def attributes : Element → Attributes
  | node a _ => a

/-- The elements inside. -/
def children : Element → List Element
  | node _ cs => cs

/-- The identity of the element. -/
def id (e : Element) : String := e.attributes.id

/-- The kind of the element. -/
def kind (e : Element) : ElementKind := e.attributes.kind

instance : Inhabited Element := ⟨node { id := "", kind := .spacer } []⟩

/-! ## Building -/

/-- An element without style, properties or behaviour. -/
def plain (id : String) (kind : ElementKind) : Element := node { id, kind } []

/-- Change the attributes. -/
def modify (e : Element) (f : Attributes → Attributes) : Element := node (f e.attributes) e.children

/-- Set a property. -/
def setProp (e : Element) (key : String) (value : Json) : Element :=
  e.modify fun a => { a with props := a.props.insert key value }

/-- Set a style. -/
def setStyle (e : Element) (key : String) (value : Json) : Element :=
  e.modify fun a => { a with style := a.style.insert key value }

/-- Set the children. -/
def setChildren (e : Element) (children : List Element) : Element := node e.attributes children

/-- Set the single action. -/
def setAction (e : Element) (action : Action) : Element :=
  e.modify fun a => { a with action := some action }

/-- Set the listed actions. -/
def setActions (e : Element) (actions : List Action) : Element :=
  e.modify fun a => { a with actions := some actions }

/-- Show the element only under a condition. -/
def setCondition (e : Element) (condition : Condition) : Element :=
  e.modify fun a => { a with showRule := some ⟨some condition⟩ }

/-- Show the element only with a selection in a group. -/
def setGate (e : Element) (group : String) (selected : Option String) : Element :=
  e.modify fun a => { a with gate := some ⟨group, selected⟩ }

/-- A text element. -/
def label (id text : String) : Element := (plain id .text).setProp "text" (.string text)

/-! ## Document order -/

mutual

/-- An element and everything inside, parents before children. -/
def document : Element → List Element
  | node a cs => node a cs :: documents cs

/-- A forest in document order. -/
def documents : List Element → List Element
  | [] => []
  | e :: rest => document e ++ documents rest

end

mutual

/-- The same forest with changed attributes at every element. -/
def map (f : Attributes → Attributes) : Element → Element
  | node a cs => node (f a) (mapAll f cs)

/-- `map` of every element. -/
def mapAll (f : Attributes → Attributes) : List Element → List Element
  | [] => []
  | e :: rest => map f e :: mapAll f rest

end

theorem documents_eq (es : List Element) : documents es = es.flatMap document := by
  induction es with
  | nil => simp [documents]
  | cons e rest ih => simp [documents, ih]

theorem mapAll_eq (f : Attributes → Attributes) (es : List Element) :
    mapAll f es = es.map (map f) := by
  induction es with
  | nil => simp [mapAll]
  | cons e rest ih => simp [mapAll, ih]

theorem map_eq (f : Attributes → Attributes) (e : Element) :
    map f e = node (f e.attributes) (e.children.map (map f)) := by
  cases e
  simp [map, mapAll_eq, attributes, children]

end Element

end Onboarding
