import Onboarding.Element.Basic
import Onboarding.Json.Record

/-!
# Onboarding — selection

A selection holds the elements that are toggled on and, for every toggle group,
the element selected in it. Toggling an element of a group selects it and lets
go of the one selected before; toggling any other element flips it.
-/

namespace Onboarding

/-- A change of the selection. -/
inductive SelectionMove where
  | toggle (id : String) (group : Option String)
  | reset
deriving DecidableEq

/-- Which elements are toggled on and which one each group has selected. -/
structure Selection where
  toggled : NameSet := ∅
  groups : Table String := ∅
deriving DecidableEq

namespace Selection

/-- Nothing is selected. -/
def empty : Selection := {}

instance : Inhabited Selection := ⟨empty⟩

/-- Whether an element is toggled on. -/
def isOn (s : Selection) (id : String) : Bool := s.toggled.contains id

/-- The element selected in a group. -/
def chosen? (s : Selection) (group : String) : Option String := s.groups.get? group

/-- Toggle an element of a group. -/
def toggleIn (s : Selection) (group id : String) : Selection where
  toggled :=
    let kept : NameSet := match s.chosen? group with
      -- the element that was selected in the group is let go
      | some previous => if previous ≠ id then s.toggled.erase previous else s.toggled
      | none => s.toggled
    NameSet.add kept id
  groups := s.groups.insert group id

/-- Toggle an element without a group. -/
def flip (s : Selection) (id : String) : Selection :=
  { s with toggled := if s.isOn id then s.toggled.erase id else NameSet.add s.toggled id }

/-- Change the selection. -/
def apply (s : Selection) : SelectionMove → Selection
  | .toggle id (some group) => s.toggleIn group id
  | .toggle id none => s.flip id
  | .reset => empty

/-- Whether a gate is open. -/
def opens (s : Selection) (gate : Gate) : Bool :=
  match s.chosen? gate.group, gate.selected with
  | some current, some required => current == required
  | some _, none => true
  | none, _ => false

/-! ## JSON -/

/-- The selection a document says. -/
def ofDocument? (d : Document) : Option Selection := do
  let ms ← d.record? ["toggled", "groups"]
  let toggled ← ms.required "toggled" (Document.list? Document.toString?)
  let groups ← ms.required "groups" (Document.tableOf? Document.toString?)
  some ⟨NameSet.ofNames toggled, groups⟩

/-- The JSON of a selection. -/
def toJson (s : Selection) : Json :=
  .object [("toggled", Json.strings s.toggled.keys),
    ("groups", Json.ofTable (s.groups.map .string))]

end Selection

end Onboarding
