import Onboarding.Element.Basic

/-!
# Onboarding — changes

A change is a partial edit of a forest. It names the element it targets, and
says what to remove, replace, write over or insert there. A change that names no
element can only insert among the roots.

## Results

* `Placement.ofText_toText` — a written placement is read back, its anchor trimmed.
-/

namespace Onboarding

/-! ## Placements -/

/-- Where an element goes among its siblings. -/
inductive Placement where
  | first
  | last
  | before (anchor : String)
  | after (anchor : String)
deriving DecidableEq

namespace Placement

/-- The anchor of a text. -/
def anchorOf (s : List Char) : String := String.ofList (Text.trim s)

/-- The placement of a text; a text that says nothing else means the end. -/
def ofText (text : String) : Placement :=
  let s := Text.trim text.toList
  match Text.cutHead? "before:".toList s with
  | some anchor => before (anchorOf anchor)
  | none =>
    match Text.cutHead? "after:".toList s with
    | some anchor => after (anchorOf anchor)
    | none => if s = "first".toList then first else last

/-- The text of a placement. -/
def toText : Placement → String
  | first => "first"
  | last => "last"
  | before anchor => "before:" ++ anchor
  | after anchor => "after:" ++ anchor

/-- The placement with its anchor trimmed, as every placement of a text is. -/
def trimmed : Placement → Placement
  | before anchor => before (anchorOf anchor.toList)
  | after anchor => after (anchorOf anchor.toList)
  | p => p

theorem trimmed_ofText (text : String) : (ofText text).trimmed = ofText text := by
  unfold ofText
  dsimp only
  split
  · simp [trimmed, anchorOf, Text.trim_trim]
  · split
    · simp [trimmed, anchorOf, Text.trim_trim]
    · split <;> rfl

private theorem trim_append {head : List Char} (hne : head ≠ [])
    (hlast : Text.isBlank (head.getLast hne) = false)
    (hfirst : Text.isBlank (head.head hne) = false) (s : List Char) :
    Text.trim (head ++ s) = head ++ Text.trimEnd s := by
  rw [Text.trim, Text.trimEnd_append hne hlast]
  cases head with
  | nil => exact absurd rfl hne
  | cons c rest => simp_all [Text.trimStart]

/-- A written placement is read back, its anchor trimmed. -/
theorem ofText_toText (p : Placement) : ofText p.toText = p.trimmed := by
  cases p with
  | first => decide +kernel
  | last => decide +kernel
  | before anchor =>
    have hcut : Text.cutHead? "before:".toList (Text.trim ("before:" ++ anchor).toList) =
        some (Text.trimEnd anchor.toList) := by
      rw [Text.cutHead?_eq_some, String.toList_append]
      exact trim_append (by decide) (by decide) (by decide) _
    simp only [ofText, toText, trimmed, anchorOf, hcut, Text.trim_trimEnd]
  | after anchor =>
    have htrim : Text.trim ("after:" ++ anchor).toList =
        "after:".toList ++ Text.trimEnd anchor.toList := by
      rw [String.toList_append]
      exact trim_append (by decide) (by decide) (by decide) _
    have hother : Text.cutHead? "before:".toList (Text.trim ("after:" ++ anchor).toList) =
        none := by
      rw [htrim]
      rfl
    have hcut : Text.cutHead? "after:".toList (Text.trim ("after:" ++ anchor).toList) =
        some (Text.trimEnd anchor.toList) := by
      rw [Text.cutHead?_eq_some, htrim]
    simp only [ofText, toText, trimmed, anchorOf, hcut, hother, Text.trim_trimEnd]

end Placement

/-! ## Changes -/

/-- An element to insert, in one of its two written forms. -/
inductive Insertion where
  | placed (element : Element) (placement : Option Placement)
  | bare (element : Element)

/-- The element to insert. -/
def Insertion.element : Insertion → Element
  | placed e _ => e
  | bare e => e

/-- A partial edit. -/
structure Change where
  /-- The element that is changed, or the parent of what is inserted. -/
  id : Option String := none
  remove : Bool := false
  style : Option (Table Json) := none
  props : Option (Table Json) := none
  action : Option Action := none
  actions : Option (List Action) := none
  gate : Option Gate := none
  showRule : Option ShowRule := none
  entrance : Option Json := none
  textAnimation : Option Json := none
  interactive : Option Json := none
  children : Option (List Element) := none
  insertion : Option Insertion := none
  /-- The placement of an insertion that does not say its own. -/
  placement : Option Placement := none

namespace Change

/-- A change of an element that changes nothing yet. -/
def target (id : String) : Change := { id := some id }

/-- The removal of an element. -/
def removal (id : String) : Change := { target id with remove := true }

/-- The insertion of an element under a parent, or among the roots. -/
def insert (parent : Option String) (element : Element) (placement : Placement) : Change :=
  { id := parent, insertion := some (.placed element (some placement)) }

/-- Write a style. -/
def setStyle (c : Change) (key : String) (value : Json) : Change :=
  { c with style := some ((c.style.getD ∅).insert key value) }

/-- Write a property. -/
def setProp (c : Change) (key : String) (value : Json) : Change :=
  { c with props := some ((c.props.getD ∅).insert key value) }

/-- Replace the children. -/
def setChildren (c : Change) (children : List Element) : Change :=
  { c with children := some children }

/-- The element to insert. -/
def insertedElement (c : Change) : Option Element := c.insertion.map Insertion.element

/-- Where the inserted element goes: as the insertion says, else as the change says, else at the
end. -/
def effectivePlacement (c : Change) : Placement :=
  match c.insertion with
  | some (.placed _ (some placement)) => placement
  | _ => c.placement.getD .last

end Change

end Onboarding
