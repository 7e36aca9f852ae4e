import Onboarding.Element.Wire

/-!
# Onboarding — screens

A screen shows a forest of elements, or a component that the host knows by
name. Hidden screens are skipped when a flow is loaded.

In JSON a screen is an object whose other members, besides id, name and the
hidden mark, are its content: with `elements` that can be read it is a forest,
else with a `component` it is custom. The content may not be unreadable.
-/

namespace Onboarding

/-- What a screen shows. -/
inductive Content where
  | elements (roots : List Element)
  | custom (component : String) (props : Table Json)

/-- One screen of a flow. -/
structure Screen where
  id : String
  name : Option String := none
  hidden : Bool := false
  content : Content

namespace Screen

/-- A screen of elements. -/
def ofElements (id : String) (roots : List Element) : Screen := { id, content := .elements roots }

/-- A screen that the host shows. -/
def ofComponent (id component : String) : Screen := { id, content := .custom component ∅ }

/-- The same screen, hidden. -/
def hide (s : Screen) : Screen := { s with hidden := true }

/-- The elements of a screen. -/
def roots (s : Screen) : List Element :=
  match s.content with
  | .elements roots => roots
  | .custom .. => []

/-- Whether the host shows the screen. -/
def isCustom (s : Screen) : Bool :=
  match s.content with
  | .elements _ => false
  | .custom .. => true

/-! ## JSON -/

/-- The fields of a screen besides its content. -/
def fieldNames : List String := ["id", "name", "hidden"]

/-- A content of elements. -/
def elementsContent? (ms : Members) : Option Content :=
  if ms.repeatsAny ["elements"] then none
  else (ms.required "elements" (Document.list? (Element.ofDocument? .tried))).map .elements

/-- A content of a component. -/
def customContent? (ms : Members) : Option Content :=
  if ms.repeatsAny ["component", "props"] then none
  else (ms.required "component" Document.toString?).bind fun component =>
    (ms.withDefault "props" ∅ Document.table?).map fun props => .custom component props

/-- The content that the other members of a screen say. -/
def content? (ms : Members) : Option Content :=
  if (Document.object ms).isReadable then
    Document.firstOf (elementsContent? ms) fun _ => customContent? ms
  else none

/-- The screen a document says. -/
def ofDocument? : Document → Option Screen
  | .object ms =>
    if Members.repeatsAny ms fieldNames then none
    else do
      let id ← Members.required ms "id" Document.toString?
      let name ← Members.optional ms "name" Document.toString?
      let hidden ← Members.withDefault ms "hidden" false Document.toBool?
      let content ← content? (ms.filter fun m => m.1 ∉ fieldNames)
      some { id, name, hidden, content }
  | _ => none

/-- The members of a content. -/
def contentMembers : Content → List (String × Json)
  | .elements roots => [("elements", Element.forestToJson roots)]
  | .custom component props => ("component", .string component) :: Json.tableMember "props" props

/-- The JSON of a screen. -/
def toJson (s : Screen) : Json :=
  .object (("id", .string s.id) :: (Json.optionalMember "name" (s.name.map .string) ++
    (Json.memberIf s.hidden "hidden" (.bool true) ++ contentMembers s.content)))

end Screen

/-! ## Flows -/

/-- An experiment that runs on a flow. -/
structure Experiment where
  id : String
  name : Option String := none
deriving DecidableEq

/-- The screens of a flow and its experiments. -/
structure Flow where
  screens : List Screen
  experiments : List Experiment := []

/-- A user's variant of an experiment, with screens of its own. -/
structure Variant where
  name : String
  screens : List Screen

namespace Experiment

/-- The experiment a document says. -/
def ofDocument? (d : Document) : Option Experiment := do
  let ms ← d.record? ["id", "name"]
  let id ← ms.required "id" Document.toString?
  let name ← ms.optional "name" Document.toString?
  some ⟨id, name⟩

/-- The JSON of an experiment. -/
def toJson (e : Experiment) : Json :=
  .object (("id", .string e.id) :: Json.optionalMember "name" (e.name.map .string))

end Experiment

namespace Flow

/-- The flow a document says. -/
def ofDocument? (d : Document) : Option Flow := do
  let ms ← d.record? ["screens", "experiments"]
  let screens ← ms.required "screens" (Document.list? Screen.ofDocument?)
  let experiments ← ms.withDefault "experiments" [] (Document.list? Experiment.ofDocument?)
  some ⟨screens, experiments⟩

/-- The JSON of a flow. -/
def toJson (f : Flow) : Json :=
  .object (("screens", .array (f.screens.map Screen.toJson)) ::
    Json.memberIf (!f.experiments.isEmpty) "experiments"
      (.array (f.experiments.map Experiment.toJson)))

end Flow

namespace Variant

/-- The variant a document says. -/
def ofDocument? (d : Document) : Option Variant := do
  let ms ← d.record? ["variant", "screens"]
  let name ← ms.required "variant" Document.toString?
  let screens ← ms.required "screens" (Document.list? Screen.ofDocument?)
  some ⟨name, screens⟩

/-- The JSON of a variant. -/
def toJson (v : Variant) : Json :=
  .object [("variant", .string v.name), ("screens", .array (v.screens.map Screen.toJson))]

end Variant

end Onboarding
