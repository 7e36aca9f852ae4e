import Onboarding.Change.Basic
import Onboarding.Element.Wire

/-!
# Onboarding — changes in JSON

A change is a record. What it inserts is an object of an element and an optional
placement, or else the element itself; both are tried, and nothing of it may be
unreadable.

## Results

* `Insertion.ofDocument?_object` — the form with a placement is tried first.
-/

namespace Onboarding

/-- The placement a document says. -/
def Placement.ofDocument? (d : Document) : Option Placement :=
  d.toString?.map Placement.ofText

/-- The JSON of a placement. -/
def Placement.toJson (p : Placement) : Json := .string p.toText

namespace Insertion

/-- The form with a placement, which is never an array. -/
def placedOf? : Document → Option Insertion
  | .object ms =>
    if Members.repeatsAny ms ["element", "position"] then none
    else (Members.required ms "element" (Element.ofDocument? .tried)).bind fun e =>
      (Members.optional ms "position" Placement.ofDocument?).map fun p => placed e p
  | _ => none

/-- The insertion a document says. -/
def ofDocument? (d : Document) : Option Insertion :=
  if d.isReadable then
    Document.firstOf (placedOf? d) fun _ => (Element.ofDocument? .tried d).map bare
  else none

/-- The JSON of an insertion. -/
def toJson : Insertion → Json
  | placed e p =>
    .object (("element", e.toJson) :: Json.optionalMember "position" (p.map Placement.toJson))
  | bare e => e.toJson

/-- The form with a placement is tried first. -/
theorem ofDocument?_object {d : Document} {i : Insertion} (h : d.isReadable = true)
    (hi : placedOf? d = some i) : ofDocument? d = some i := by
  simp [ofDocument?, h, hi, Document.firstOf]

end Insertion

namespace Change

/-- The fields of a change in their declared order. -/
def fieldNames : List String :=
  ["id", "remove", "style", "props", "action", "actions", "visibleWhen", "conditions", "entrance",
    "textAnimation", "interactive", "children", "insertChild", "position"]

/-- The change a document says. -/
def ofDocument? (access : Access) (d : Document) : Option Change := do
  let ms ← d.record? fieldNames
  let id ← ms.optional "id" Document.toString?
  let remove ← ms.withDefault "remove" false Document.toBool?
  let style ← ms.optional "style" Document.table?
  let props ← ms.optional "props" Document.table?
  let action ← ms.optional "action" (Action.ofDocument? access)
  let actions ← ms.optional "actions" (Document.list? (Action.ofDocument? access))
  let gate ← ms.optional "visibleWhen" Gate.ofDocument?
  let showRule ← ms.optional "conditions" ShowRule.ofDocument?
  let entrance ← ms.optional "entrance" Document.toJson?
  let textAnimation ← ms.optional "textAnimation" Document.toJson?
  let interactive ← ms.optional "interactive" Document.toJson?
  let children ← ms.optional "children" (Document.list? (Element.ofDocument? access))
  let insertion ← ms.optional "insertChild" Insertion.ofDocument?
  let placement ← ms.optional "position" Placement.ofDocument?
  some { id, remove, style, props, action, actions, gate, showRule, entrance, textAnimation,
         interactive, children, insertion, placement }

/-- The JSON of a change. -/
def toJson (c : Change) : Json :=
  .object (
    Json.optionalMember "id" (c.id.map .string) ++
    (Json.memberIf c.remove "remove" (.bool true) ++
    (Json.optionalMember "style" (c.style.map Json.ofTable) ++
    (Json.optionalMember "props" (c.props.map Json.ofTable) ++
    (Json.optionalMember "action" (c.action.map Action.toJson) ++
    (Json.optionalMember "actions" (c.actions.map fun as => .array (as.map Action.toJson)) ++
    (Json.optionalMember "visibleWhen" (c.gate.map Gate.toJson) ++
    (Json.optionalMember "conditions" (c.showRule.map ShowRule.toJson) ++
    (Json.optionalMember "entrance" c.entrance ++
    (Json.optionalMember "textAnimation" c.textAnimation ++
    (Json.optionalMember "interactive" c.interactive ++
    (Json.optionalMember "children" (c.children.map Element.forestToJson) ++
    (Json.optionalMember "insertChild" (c.insertion.map Insertion.toJson) ++
    Json.optionalMember "position" (c.placement.map Placement.toJson))))))))))))))

end Change

end Onboarding
