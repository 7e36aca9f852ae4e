import Onboarding.Element.Basic
import Onboarding.Destination.Wire

/-!
# Onboarding — elements in JSON

Actions are records tagged by `type`; gates, show rules and elements are plain
records. The types of actions and the kinds of elements are spelled as the access
to the document allows, which is the same for an element and all its children.
Fields without a value, empty tables and empty child lists are not written.

## Results

* `Element.ofDocument?_eq` — an element is a record whose children are elements.
-/

namespace Onboarding

/-! ## Kinds, actions and visibility -/

/-- The kind a document names. -/
def ElementKind.ofDocument? (access : Access) (d : Document) : Option ElementKind :=
  (d.name? access).bind ElementKind.ofName?

namespace Action

/-- The alternative of an action with the rest of its record. -/
def ofTagged? (tag : String) (rest : Document) : Option Action :=
  match tag with
  | "tap" => if rest.isFieldless then some tap else none
  | "dismiss" => if rest.isFieldless then some dismiss else none
  | "navigate" => do
    let ms ← rest.record? ["destination"]
    let destination ← ms.required "destination" Destination.ofDocument?
    some (navigate destination)
  | "toggle" => do
    let ms ← rest.record? ["group"]
    let group ← ms.optional "group" Document.toString?
    some (toggle group)
  | "set_variable" => do
    let ms ← rest.record? ["variable", "value"]
    let name ← ms.required "variable" Document.toString?
    let value ← ms.withDefault "value" .null Document.toJson?
    some (setVariable name value)
  | "link" => do
    let ms ← rest.record? ["url"]
    let url ← ms.required "url" Document.toString?
    some (link url)
  | _ => none

/-- The action a document says. -/
def ofDocument? (access : Access) (d : Document) : Option Action :=
  (d.tagged? access "type" typeNames).bind fun (tag, rest) => ofTagged? tag rest

/-- The fields of an action besides its type. -/
def fields : Action → List (String × Json)
  | tap => []
  | navigate destination => [("destination", destination.toJson)]
  | toggle group => Json.optionalMember "group" (group.map .string)
  | setVariable name value => [("variable", .string name), ("value", value)]
  | link url => [("url", .string url)]
  | dismiss => []

/-- The JSON of an action. -/
def toJson (a : Action) : Json := .object (("type", .string a.typeName) :: a.fields)

end Action

namespace Gate

/-- The gate a document says. -/
def ofDocument? (d : Document) : Option Gate := do
  let ms ← d.record? ["group", "selected"]
  let group ← ms.required "group" Document.toString?
  let selected ← ms.optional "selected" Document.toString?
  some ⟨group, selected⟩

/-- The JSON of a gate. -/
def toJson (g : Gate) : Json :=
  .object (("group", .string g.group) :: Json.optionalMember "selected" (g.selected.map .string))

end Gate

namespace ShowRule

/-- The rule a document says. -/
def ofDocument? (d : Document) : Option ShowRule := do
  let ms ← d.record? ["show_if"]
  let showIf ← ms.optional "show_if" Condition.ofDocument?
  some ⟨showIf⟩

/-- The JSON of a rule. -/
def toJson (r : ShowRule) : Json :=
  .object (Json.optionalMember "show_if" (r.showIf.map Condition.toJson))

end ShowRule

/-! ## Elements -/

namespace Element

/-- The fields of an element in their declared order. -/
def fieldNames : List String :=
  ["id", "type", "style", "props", "children", "position", "action", "actions", "visibleWhen",
    "conditions", "entrance", "textAnimation", "interactive"]

/-- The attributes of an element's record. -/
def attributesOf? (access : Access) (ms : Members) : Option Attributes := do
  let id ← ms.required "id" Document.toString?
  let kind ← ms.required "type" (ElementKind.ofDocument? access)
  let style ← ms.withDefault "style" ∅ Document.table?
  let props ← ms.withDefault "props" ∅ Document.table?
  let position ← ms.optional "position" Document.toJson?
  let action ← ms.optional "action" (Action.ofDocument? access)
  let actions ← ms.optional "actions" (Document.list? (Action.ofDocument? access))
  let gate ← ms.optional "visibleWhen" Gate.ofDocument?
  let showRule ← ms.optional "conditions" ShowRule.ofDocument?
  let entrance ← ms.optional "entrance" Document.toJson?
  let textAnimation ← ms.optional "textAnimation" Document.toJson?
  let interactive ← ms.optional "interactive" Document.toJson?
  some { id, kind, style, props, position, action, actions, gate, showRule, entrance,
         textAnimation, interactive }

mutual

/-- The element a document says. -/
def ofDocument? (access : Access) : Document → Option Element
  | .object ms =>
    if Members.repeatsAny ms fieldNames then none
    else (attributesOf? access ms).bind fun a =>
      (childrenUnder access "children" ms).map fun cs => node a cs
  | .array xs =>
    if xs.length ≤ fieldNames.length then
      (attributesOf? access (fieldNames.zip xs)).bind fun a =>
        (childrenAmong access "children" fieldNames xs).map fun cs => node a cs
    else none
  | _ => none

/-- The children under a name. -/
def childrenUnder (access : Access) (name : String) : Members → Option (List Element)
  | [] => some []
  | (k, d) :: ms => if name = k then listOf? access d else childrenUnder access name ms

/-- The children at the place of a name. -/
def childrenAmong (access : Access) (name : String) :
    List String → List Document → Option (List Element)
  | k :: ks, d :: ds => if name = k then listOf? access d else childrenAmong access name ks ds
  | [], _ => some []
  | _ :: _, [] => some []

/-- The elements of an array. -/
def listOf? (access : Access) : Document → Option (List Element)
  | .array xs => ofDocuments? access xs
  | _ => none

/-- Every document read as an element. -/
def ofDocuments? (access : Access) : List Document → Option (List Element)
  | [] => some []
  | d :: ds => (ofDocument? access d).bind fun e => (ofDocuments? access ds).map (e :: ·)

end

theorem ofDocuments?_eq (access : Access) (ds : List Document) :
    ofDocuments? access ds = Document.readAll (ofDocument? access) ds := by
  induction ds with
  | nil => simp [ofDocuments?, Document.readAll]
  | cons d ds ih => simp [ofDocuments?, Document.readAll, ih]

theorem listOf?_eq (access : Access) (d : Document) :
    listOf? access d = d.list? (ofDocument? access) := by
  cases d <;> simp [listOf?, Document.list?, ofDocuments?_eq]

/-- Children are looked up like any other field. -/
theorem childrenUnder_eq (access : Access) (name : String) (ms : Members) :
    childrenUnder access name ms =
      ms.withDefault name [] (Document.list? (ofDocument? access)) := by
  induction ms with
  | nil => simp [childrenUnder, Members.withDefault, Members.find?, Entries.get?]
  | cons m ms ih => rw [childrenUnder, Members.withDefault_cons, ih, listOf?_eq]

theorem childrenAmong_eq (access : Access) (name : String) (ks : List String)
    (ds : List Document) : childrenAmong access name ks ds =
      Members.withDefault (ks.zip ds) name [] (Document.list? (ofDocument? access)) := by
  induction ks generalizing ds with
  | nil => simp [childrenAmong, Members.withDefault, Members.find?, Entries.get?]
  | cons k ks ih =>
    cases ds with
    | nil => simp [childrenAmong, Members.withDefault, Members.find?, Entries.get?]
    | cons d ds =>
      rw [childrenAmong, List.zip_cons_cons, Members.withDefault_cons, ih, listOf?_eq]

/-- An element is a record whose children are elements. -/
theorem ofDocument?_eq (access : Access) (d : Document) :
    ofDocument? access d = (d.record? fieldNames).bind fun ms =>
      (attributesOf? access ms).bind fun a =>
        (ms.withDefault "children" [] (Document.list? (ofDocument? access))).map
          fun cs => node a cs := by
  cases d with
  | object ms =>
    rw [ofDocument?, Document.record?]
    split <;> simp [childrenUnder_eq]
  | array xs =>
    rw [ofDocument?, Document.record?]
    split <;> simp [childrenAmong_eq]
  | _ => simp [ofDocument?, Document.record?]

mutual

/-- The JSON of an element. -/
def toJson : Element → Json
  | node a cs =>
    .object ([("id", .string a.id), ("type", .string a.kind.name)] ++
      (Json.tableMember "style" a.style ++
      (Json.tableMember "props" a.props ++
      (Json.memberIf (!cs.isEmpty) "children" (.array (toJsons cs)) ++
      (Json.optionalMember "position" a.position ++
      (Json.optionalMember "action" (a.action.map Action.toJson) ++
      (Json.optionalMember "actions" (a.actions.map fun as => .array (as.map Action.toJson)) ++
      (Json.optionalMember "visibleWhen" (a.gate.map Gate.toJson) ++
      (Json.optionalMember "conditions" (a.showRule.map ShowRule.toJson) ++
      (Json.optionalMember "entrance" a.entrance ++
      (Json.optionalMember "textAnimation" a.textAnimation ++
      Json.optionalMember "interactive" a.interactive)))))))))))

/-- The JSON of every element. -/
def toJsons : List Element → List Json
  | [] => []
  | e :: rest => toJson e :: toJsons rest

end

theorem toJsons_eq (es : List Element) : toJsons es = es.map toJson := by
  induction es with
  | nil => simp [toJsons]
  | cons e rest ih => simp [toJsons, ih]

/-- The JSON of a forest. -/
def forestToJson (es : List Element) : Json := .array (es.map toJson)

end Element

end Onboarding
