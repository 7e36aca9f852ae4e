import Onboarding.Change.Basic

/-!
# Onboarding — merging changes into a forest

Merging rebuilds a forest in one pass over the changes of each element, in the
order of the change list. An element that some change removes is dropped with
everything inside. Styles and properties are written over key by key, other
attributes as a whole. Replaced children, like inserted elements, are taken as
they are. Children and insertions of an element that is no container are
ignored, and so is a change of an id that is nowhere.
-/

namespace Onboarding

/-! ## Insertions -/

/-- Elements waiting to be inserted, by where they go. -/
structure Slots where
  first : List Element := []
  before : Table (List Element) := ∅
  after : Table (List Element) := ∅
  last : List Element := []

namespace Slots

/-- Put an element behind the others that go next to the same anchor. -/
def enqueue (t : Table (List Element)) (anchor : String) (e : Element) : Table (List Element) :=
  t.insert anchor ((t.get? anchor).getD [] ++ [e])

/-- Put an element where it goes; an anchor that is not among the siblings means the end. -/
def place (slots : Slots) (siblings : List Element) (e : Element) (p : Placement) : Slots :=
  let isSibling (anchor : String) : Bool := siblings.any fun s => s.id = anchor
  match p with
  | .first => { slots with first := slots.first ++ [e] }
  | .before anchor =>
    if isSibling anchor then { slots with before := enqueue slots.before anchor e }
    else { slots with last := slots.last ++ [e] }
  | .after anchor =>
    if isSibling anchor then { slots with after := enqueue slots.after anchor e }
    else { slots with last := slots.last ++ [e] }
  | .last => { slots with last := slots.last ++ [e] }

/-- Place every element whose id is not yet present. -/
def fill (siblings : List Element) (slots : Slots) (present : List String) :
    List (Element × Placement) → Slots
  | [] => slots
  | (e, p) :: rest =>
    if e.id ∈ present then fill siblings slots present rest
    else fill siblings (slots.place siblings e p) (e.id :: present) rest

/-- The siblings with the elements that go next to them. What goes next to an anchor does so at
its first occurrence. -/
def weave (before after : Table (List Element)) : List Element → List Element
  | [] => []
  | s :: rest =>
    (before.get? s.id).getD [] ++ s :: ((after.get? s.id).getD [] ++
      weave (before.erase s.id) (after.erase s.id) rest)

end Slots

/-- Insert elements among siblings. An element whose id is already there is skipped. -/
def insertInto (siblings : List Element) (insertions : List (Element × Placement)) :
    List Element :=
  let slots := Slots.fill siblings {} (siblings.map Element.id) insertions
  slots.first ++ Slots.weave slots.before slots.after siblings ++ slots.last

/-! ## Merging -/

namespace Change

/-- Attributes with a change written over them. -/
def edit (c : Change) (a : Attributes) : Attributes :=
  { a with
    style := match c.style with | some more => a.style.extend more | none => a.style
    props := match c.props with | some more => a.props.extend more | none => a.props
    action := c.action.or a.action
    actions := c.actions.or a.actions
    gate := c.gate.or a.gate
    showRule := c.showRule.or a.showRule
    entrance := c.entrance.or a.entrance
    textAnimation := c.textAnimation.or a.textAnimation
    interactive := c.interactive.or a.interactive }

/-- The changes that name an id. -/
def targeting (id : String) (changes : List Change) : List Change :=
  changes.filter fun c => c.id = some id

/-- The changes that name no element. -/
def untargeted (changes : List Change) : List Change := changes.filter fun c => c.id = none

/-- The elements that changes insert, with their placements. -/
def insertions (changes : List Change) : List (Element × Placement) :=
  changes.filterMap fun c => c.insertedElement.map fun e => (e, c.effectivePlacement)

/-- The children that the last change which replaces them gives. -/
def replacement (changes : List Change) : Option (List Element) :=
  (changes.filterMap Change.children).getLast?

mutual

/-- An element with the changes merged into it and everything inside, unless it is removed. -/
def mergeNode (changes : List Change) : Element → Option Element
  | .node a children =>
    let own := targeting a.id changes
    -- a removal wins over every other change of the element
    if own.any Change.remove then none
    else
      let attributes := own.foldl (fun a c => c.edit a) a
      if a.kind.holdsChildren then
        -- replaced children are taken as they are, without a merge of their own
        let kept := match replacement own with
          | some children => children
          | none => mergeAll changes children
        some (.node attributes (insertInto kept (insertions own)))
      -- what cannot hold children keeps those it has
      else some (.node attributes (mergeAll changes children))

/-- The elements that are not removed, each merged. -/
def mergeAll (changes : List Change) : List Element → List Element
  | [] => []
  | e :: rest =>
    match mergeNode changes e with
    | some merged => merged :: mergeAll changes rest
    | none => mergeAll changes rest

end

/-- A forest with changes merged into it. -/
def merge (roots : List Element) (changes : List Change) : List Element :=
  insertInto (mergeAll changes roots) (insertions (untargeted changes))

end Change

end Onboarding
