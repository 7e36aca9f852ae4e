import Onboarding.Change.Wire
import Onboarding.Proofs.Wire.Rules

/-!
# Onboarding — elements and changes that are written and read again

What is written of an action, an element or a change is read the same wherever it
stands: names are written as strings, which are read both where they stand and
where they were set aside. What is written of an element has no member `element`,
so that a bare insertion is not taken for one with a placement.

## Results

* `Action.kept`, `Element.kept`, `Change.kept` — what is read with one access is
  read again with any other.
* `Insertion.kept` — an insertion is read again in the form it was read in.
-/

namespace Onboarding

/-! ## Kinds, actions and visibility -/

/-- The name of a kind is read again. -/
theorem ElementKind.kept (access other : Access) (d : Document) :
    KeptAt (ElementKind.ofDocument? access) (ElementKind.ofDocument? other)
      (fun kind => .string kind.name) d := by
  intro kind _
  exact ElementKind.ofName?_name kind

namespace Action

/-- The fields that an action is written with, besides its type. -/
def slots : Action → List (String × Option Json)
  | tap => []
  | navigate destination => [("destination", some destination.toJson)]
  | toggle group => [("group", group.map .string)]
  | setVariable name value => [("variable", some (.string name)), ("value", some value)]
  | link url => [("url", some (.string url))]
  | dismiss => []

/-- No action has two fields of one name. -/
theorem nodup_slots (a : Action) :
    ((("type", some (.string a.typeName)) :: a.slots).map Prod.fst).Nodup := by
  cases a <;> simp [slots]

/-- An action is written as a record that is tagged by its type. -/
theorem toDocument_toJson (a : Action) : a.toJson.toDocument =
    .object (Members.written (("type", some (.string a.typeName)) :: a.slots)) := by
  rw [← Members.toDocument_present]
  cases a with
  | toggle group => cases group <;> rfl
  | _ => rfl

/-- An alternative that is read is read again from its fields. -/
theorem ofTagged?_slots {tag : String} {rest : Document} {a : Action}
    (hRead : ofTagged? tag rest = some a) :
    ofTagged? a.typeName (.object (Members.written a.slots)) = some a := by
  have hNodup := (List.nodup_cons.mp a.nodup_slots).2
  have hFind (key : String) := Members.find?_written hNodup key
  have hRecord := Members.record?_written hNodup
  unfold ofTagged? at hRead
  -- one case per type, in the order in which the reader knows them
  split at hRead
  · cases (Option.ite_none_right_eq_some.mp hRead).2
    rfl
  · cases (Option.ite_none_right_eq_some.mp hRead).2
    rfl
  · simp only [Option.bind_eq_bind, Option.bind_eq_some_iff] at hRead
    obtain ⟨ms, -, destination, hDestination, hSome⟩ := hRead
    cases hSome
    have hDestination := Members.required_kept hDestination (fun d _ => Destination.kept d)
      (hFind "destination")
    simp only [typeName, ofTagged?, hRecord, Option.bind_eq_bind, Option.bind_some, hDestination]
  · simp only [Option.bind_eq_bind, Option.bind_eq_some_iff] at hRead
    obtain ⟨ms, -, group, hGroup, hSome⟩ := hRead
    cases hSome
    have hGroup := Members.optional_kept hGroup (fun d _ => keptAt_toString? d) rfl (hFind "group")
    simp only [typeName, ofTagged?, hRecord, Option.bind_eq_bind, Option.bind_some, hGroup]
  · simp only [Option.bind_eq_bind, Option.bind_eq_some_iff] at hRead
    obtain ⟨ms, -, name, hName, value, hValue, hSome⟩ := hRead
    cases hSome
    have hName := Members.required_kept hName (fun d _ => keptAt_toString? d) (hFind "variable")
    have hValue := Members.withDefault_kept hValue (fun d _ => keptAt_toJson? d) rfl (hFind "value")
    simp only [typeName, ofTagged?, hRecord, Option.bind_eq_bind, Option.bind_some, hName, hValue]
  · simp only [Option.bind_eq_bind, Option.bind_eq_some_iff] at hRead
    obtain ⟨ms, -, url, hUrl, hSome⟩ := hRead
    cases hSome
    have hUrl := Members.required_kept hUrl (fun d _ => keptAt_toString? d) (hFind "url")
    simp only [typeName, ofTagged?, hRecord, Option.bind_eq_bind, Option.bind_some, hUrl]
  · cases hRead

/-- An action that is read is read again from what is written of it. -/
theorem kept (access other : Access) (d : Document) :
    KeptAt (ofDocument? access) (ofDocument? other) toJson d := by
  intro a hRead
  obtain ⟨⟨tag, rest⟩, -, hRest⟩ := Option.bind_eq_some_iff.mp hRead
  rw [ofDocument?, toDocument_toJson, Members.tagged?_written a.nodup_slots]
  exact ofTagged?_slots hRest

end Action

namespace Gate

/-- The fields that a gate is written with. -/
def slots (g : Gate) : List (String × Option Json) :=
  [("group", some (.string g.group)), ("selected", g.selected.map .string)]

/-- The two fields of a gate have two names. -/
theorem nodup_slots (g : Gate) : (g.slots.map Prod.fst).Nodup := by
  simp [slots]

/-- A gate is written as a record. -/
theorem toDocument_toJson (g : Gate) :
    g.toJson.toDocument = .object (Members.written g.slots) := by
  rw [← Members.toDocument_present]
  obtain ⟨group, selected⟩ := g
  cases selected <;> rfl

/-- A gate that is read is read again from what is written of it. -/
theorem kept (d : Document) : KeptAt ofDocument? ofDocument? toJson d := by
  intro g hRead
  have hFind (key : String) := Members.find?_written g.nodup_slots key
  have hRecord := Members.record?_written g.nodup_slots
  have hWritten := g.toDocument_toJson
  simp only [ofDocument?, Option.bind_eq_bind, Option.bind_eq_some_iff] at hRead
  obtain ⟨ms, -, group, hGroup, selected, hSelected, hSome⟩ := hRead
  cases hSome
  have hGroup := Members.required_kept hGroup (fun d _ => keptAt_toString? d) (hFind "group")
  have hSelected := Members.optional_kept hSelected (fun d _ => keptAt_toString? d) rfl
    (hFind "selected")
  simp only [ofDocument?, hWritten, hRecord, Option.bind_eq_bind, Option.bind_some, hGroup,
    hSelected]

end Gate

namespace ShowRule

/-- The field that a rule is written with. -/
def slots (r : ShowRule) : List (String × Option Json) :=
  [("show_if", r.showIf.map Condition.toJson)]

/-- The fields of a rule have names of their own. -/
theorem nodup_slots (r : ShowRule) : (r.slots.map Prod.fst).Nodup := by
  simp [slots]

/-- A rule is written as a record. -/
theorem toDocument_toJson (r : ShowRule) :
    r.toJson.toDocument = .object (Members.written r.slots) := by
  rw [← Members.toDocument_present]
  obtain ⟨showIf⟩ := r
  cases showIf <;> rfl

/-- A rule that is read is read again from what is written of it. -/
theorem kept (d : Document) : KeptAt ofDocument? ofDocument? toJson d := by
  intro r hRead
  have hFind (key : String) := Members.find?_written r.nodup_slots key
  have hRecord := Members.record?_written r.nodup_slots
  have hWritten := r.toDocument_toJson
  simp only [ofDocument?, Option.bind_eq_bind, Option.bind_eq_some_iff] at hRead
  obtain ⟨ms, -, showIf, hShowIf, hSome⟩ := hRead
  cases hSome
  have hShowIf := Members.optional_kept hShowIf (fun d _ => Condition.kept d)
    (by simp [Condition.ofDocument?]) (hFind "show_if")
  simp only [ofDocument?, hWritten, hRecord, Option.bind_eq_bind, Option.bind_some, hShowIf]

end ShowRule

/-! ## Elements -/

namespace Element

/-- The fields that an element is written with. -/
def slots : Element → List (String × Option Json)
  | node a cs =>
    [("id", some (.string a.id)), ("type", some (.string a.kind.name)),
      ("style", if !a.style.isEmpty then some (Json.ofTable a.style) else none),
      ("props", if !a.props.isEmpty then some (Json.ofTable a.props) else none),
      ("children", if !cs.isEmpty then some (.array (cs.map toJson)) else none),
      ("position", a.position), ("action", a.action.map Action.toJson),
      ("actions", a.actions.map fun as => .array (as.map Action.toJson)),
      ("visibleWhen", a.gate.map Gate.toJson), ("conditions", a.showRule.map ShowRule.toJson),
      ("entrance", a.entrance), ("textAnimation", a.textAnimation),
      ("interactive", a.interactive)]

/-- An element is written with its fields in their declared order. -/
theorem names_slots (e : Element) : e.slots.map Prod.fst = fieldNames := by
  cases e
  rfl

/-- The fields of an element have names of their own. -/
theorem nodup_slots (e : Element) : (e.slots.map Prod.fst).Nodup := by
  rw [names_slots]
  decide

/-- An element is written as a record. -/
theorem toDocument_toJson (e : Element) :
    e.toJson.toDocument = .object (Members.written e.slots) := by
  rw [← Members.toDocument_present]
  obtain ⟨a, cs⟩ := e
  simp only [toJson, slots, Json.present_cons, Json.present_nil, Json.tableMember,
    Json.memberIf_eq, toJsons_eq, List.append_nil, Json.optionalMember, List.cons_append,
    List.nil_append]

/-- What the attributes of an element are read of. -/
theorem fields_of_attributesOf? {access : Access} {ms : Members} {a : Attributes}
    (h : attributesOf? access ms = some a) :
    ms.required "id" Document.toString? = some a.id ∧
    ms.required "type" (ElementKind.ofDocument? access) = some a.kind ∧
    ms.withDefault "style" ∅ Document.table? = some a.style ∧
    ms.withDefault "props" ∅ Document.table? = some a.props ∧
    ms.optional "position" Document.toJson? = some a.position ∧
    ms.optional "action" (Action.ofDocument? access) = some a.action ∧
    ms.optional "actions" (Document.list? (Action.ofDocument? access)) = some a.actions ∧
    ms.optional "visibleWhen" Gate.ofDocument? = some a.gate ∧
    ms.optional "conditions" ShowRule.ofDocument? = some a.showRule ∧
    ms.optional "entrance" Document.toJson? = some a.entrance ∧
    ms.optional "textAnimation" Document.toJson? = some a.textAnimation ∧
    ms.optional "interactive" Document.toJson? = some a.interactive := by
  -- the reader is a chain of binds, taken apart in the order of the fields
  obtain ⟨id, hId, h⟩ := Option.bind_eq_some_iff.mp h
  obtain ⟨kind, hKind, h⟩ := Option.bind_eq_some_iff.mp h
  obtain ⟨style, hStyle, h⟩ := Option.bind_eq_some_iff.mp h
  obtain ⟨props, hProps, h⟩ := Option.bind_eq_some_iff.mp h
  obtain ⟨position, hPosition, h⟩ := Option.bind_eq_some_iff.mp h
  obtain ⟨action, hAction, h⟩ := Option.bind_eq_some_iff.mp h
  obtain ⟨actions, hActions, h⟩ := Option.bind_eq_some_iff.mp h
  obtain ⟨gate, hGate, h⟩ := Option.bind_eq_some_iff.mp h
  obtain ⟨showRule, hShowRule, h⟩ := Option.bind_eq_some_iff.mp h
  obtain ⟨entrance, hEntrance, h⟩ := Option.bind_eq_some_iff.mp h
  obtain ⟨textAnimation, hTextAnimation, h⟩ := Option.bind_eq_some_iff.mp h
  obtain ⟨interactive, hInteractive, h⟩ := Option.bind_eq_some_iff.mp h
  cases h
  exact ⟨hId, hKind, hStyle, hProps, hPosition, hAction, hActions, hGate, hShowRule, hEntrance,
    hTextAnimation, hInteractive⟩

/-- The attributes of an element that is read are read again from its fields. -/
theorem attributesOf?_slots {access : Access} {ms : Members} {a : Attributes}
    (hRead : attributesOf? access ms = some a) (other : Access) (cs : List Element) :
    attributesOf? other (Members.written (node a cs).slots) = some a := by
  have hFind (key : String) := Members.find?_written (node a cs).nodup_slots key
  obtain ⟨hId, hKind, hStyle, hProps, hPosition, hAction, hActions, hGate, hShowRule, hEntrance,
    hTextAnimation, hInteractive⟩ := fields_of_attributesOf? hRead
  -- each field is read again from what is written of it
  have hId := Members.required_kept hId (fun d _ => keptAt_toString? d) (hFind "id")
  have hKind := Members.required_kept hKind (fun d _ => ElementKind.kept access other d)
    (hFind "type")
  have hStyle := Members.table_kept hStyle (hFind "style")
  have hProps := Members.table_kept hProps (hFind "props")
  have hPosition := Members.optional_toJson?_kept hPosition (hFind "position")
  have hAction := Members.optional_kept hAction (fun d _ => Action.kept access other d)
    rfl (hFind "action")
  have hActions := Members.optional_kept hActions
    (fun d _ => keptAt_list? fun item _ => Action.kept access other item) rfl (hFind "actions")
  have hGate := Members.optional_kept hGate (fun d _ => Gate.kept d) rfl (hFind "visibleWhen")
  have hShowRule := Members.optional_kept hShowRule (fun d _ => ShowRule.kept d) rfl
    (hFind "conditions")
  have hEntrance := Members.optional_toJson?_kept hEntrance (hFind "entrance")
  have hTextAnimation := Members.optional_toJson?_kept hTextAnimation (hFind "textAnimation")
  have hInteractive := Members.optional_toJson?_kept hInteractive (hFind "interactive")
  simp only [attributesOf?, hId, hKind, hStyle, hProps, hPosition, hAction, hActions, hGate,
    hShowRule, hEntrance, hTextAnimation, hInteractive]
  rfl

/-- An element that is read is read again from what is written of it. -/
theorem kept (access other : Access) (d : Document) :
    KeptAt (ofDocument? access) (ofDocument? other) toJson d := by
  intro e hRead
  -- by recursion on the document: children are smaller than the element
  have hSmaller (part : Document) (h : sizeOf part < sizeOf d) :
      KeptAt (ofDocument? access) (ofDocument? other) toJson part := kept access other part
  rw [ofDocument?_eq] at hRead
  obtain ⟨ms, hRecord, hRead⟩ := Option.bind_eq_some_iff.mp hRead
  obtain ⟨a, hAttributes, hRead⟩ := Option.bind_eq_some_iff.mp hRead
  obtain ⟨cs, hChildren, rfl⟩ := Option.map_eq_some_iff.mp hRead
  have hChildren := Members.withDefault_kept_or_skip cs.isEmpty hChildren
    (fun part hPart => keptAt_list? fun item hItem => hSmaller item
      (Nat.lt_trans hItem (Members.sizeOf_lt_of_find? hRecord hPart)))
    rfl List.isEmpty_iff.mp (Members.find?_written (node a cs).nodup_slots "children")
  rw [ofDocument?_eq, toDocument_toJson, Members.record?_written (node a cs).nodup_slots,
    Option.bind_some, attributesOf?_slots hAttributes, Option.bind_some, hChildren]
  rfl
termination_by sizeOf d

end Element

/-! ## Changes -/

/-- A placement is written with its anchor as it was trimmed when it was read. -/
theorem Placement.kept (d : Document) :
    KeptAt Placement.ofDocument? Placement.ofDocument? Placement.toJson d := by
  intro p hRead
  obtain ⟨text, -, rfl⟩ := Option.map_eq_some_iff.mp hRead
  show some (ofText (ofText text).toText) = some (ofText text)
  rw [ofText_toText, trimmed_ofText]

namespace Insertion

/-- The fields that an insertion with a placement is written with. -/
def slots (e : Element) (p : Option Placement) : List (String × Option Json) :=
  [("element", some e.toJson), ("position", p.map Placement.toJson)]

theorem nodup_slots (e : Element) (p : Option Placement) :
    ((slots e p).map Prod.fst).Nodup := by
  simp [slots]

/-- An insertion with a placement is written as a record of its own. -/
theorem toDocument_placed (e : Element) (p : Option Placement) :
    (toJson (placed e p)).toDocument = .object (Members.written (slots e p)) := by
  rw [← Members.toDocument_present]
  cases p <;> rfl

/-- Nothing inserts nothing. -/
theorem ofDocument?_null : ofDocument? .null = none := by
  simp [ofDocument?, placedOf?, Document.firstOf, Element.ofDocument?]

/-- What is written of an element alone has no placement. -/
theorem placedOf?_toJson (e : Element) : placedOf? e.toJson.toDocument = none := by
  have hMissing : Members.required (Members.written e.slots) "element"
      (Element.ofDocument? .tried) = none := by
    rw [Members.required, Members.find?_written e.nodup_slots]
    cases e
    rfl
  rw [Element.toDocument_toJson, placedOf?, hMissing]
  split <;> rfl

/-- An insertion that is read is read again from what is written of it, in the same form. -/
theorem kept (d : Document) : KeptAt ofDocument? ofDocument? toJson d := by
  intro i hRead
  rw [ofDocument?, Option.ite_none_right_eq_some, Document.firstOf_eq_some_iff] at hRead
  obtain ⟨-, hPlaced | ⟨-, hBare⟩⟩ := hRead
  · -- the form with a placement is tried first again
    unfold placedOf? at hPlaced
    split at hPlaced
    · next ms =>
      rw [Option.ite_none_left_eq_some] at hPlaced
      obtain ⟨-, hPlaced⟩ := hPlaced
      obtain ⟨e, hElement, hPlaced⟩ := Option.bind_eq_some_iff.mp hPlaced
      obtain ⟨p, hPlacement, rfl⟩ := Option.map_eq_some_iff.mp hPlaced
      have hElement := Members.required_kept hElement
        (fun part _ => Element.kept .tried .tried part)
        (Members.find?_written (nodup_slots e p) "element")
      have hPlacement := Members.optional_kept hPlacement (fun part _ => Placement.kept part) rfl
        (Members.find?_written (nodup_slots e p) "position")
      refine ofDocument?_object (Json.isReadable_toDocument _) ?_
      rw [toDocument_placed, placedOf?, Members.repeatsAny_eq_false
        (Members.nodup_written (nodup_slots e p)), hElement, Option.bind_some, hPlacement]
      rfl
    · cases hPlaced
  · obtain ⟨e, hElement, rfl⟩ := Option.map_eq_some_iff.mp hBare
    rw [ofDocument?, if_pos (Json.isReadable_toDocument _)]
    show Document.firstOf (placedOf? e.toJson.toDocument) _ = _
    rw [placedOf?_toJson, Document.firstOf, toJson, Element.kept .tried .tried d e hElement]
    rfl

end Insertion

namespace Change

/-- The fields that a change is written with. -/
def slots (c : Change) : List (String × Option Json) :=
  [("id", c.id.map .string), ("remove", if c.remove then some (.bool true) else none),
    ("style", c.style.map Json.ofTable), ("props", c.props.map Json.ofTable),
    ("action", c.action.map Action.toJson),
    ("actions", c.actions.map fun as => .array (as.map Action.toJson)),
    ("visibleWhen", c.gate.map Gate.toJson), ("conditions", c.showRule.map ShowRule.toJson),
    ("entrance", c.entrance), ("textAnimation", c.textAnimation), ("interactive", c.interactive),
    ("children", c.children.map Element.forestToJson),
    ("insertChild", c.insertion.map Insertion.toJson),
    ("position", c.placement.map Placement.toJson)]

/-- A change is written with its fields in their declared order. -/
theorem names_slots (c : Change) : c.slots.map Prod.fst = fieldNames := rfl

/-- The fields of a change have names of their own. -/
theorem nodup_slots (c : Change) : (c.slots.map Prod.fst).Nodup := by
  rw [names_slots]
  decide

/-- A change is written as a record. -/
theorem toDocument_toJson (c : Change) :
    c.toJson.toDocument = .object (Members.written c.slots) := by
  rw [← Members.toDocument_present]
  simp only [toJson, slots, Json.present_cons, Json.present_nil, Json.memberIf_eq, List.append_nil]

/-- A change that is read is read again from what is written of it. -/
theorem kept (access other : Access) (d : Document) :
    KeptAt (ofDocument? access) (ofDocument? other) toJson d := by
  intro c hRead
  have hFind (key : String) := Members.find?_written c.nodup_slots key
  have hRecord := Members.record?_written c.nodup_slots fieldNames
  -- every field is read in turn
  obtain ⟨ms, -, hRead⟩ := Option.bind_eq_some_iff.mp hRead
  obtain ⟨id, hId, hRead⟩ := Option.bind_eq_some_iff.mp hRead
  obtain ⟨remove, hRemove, hRead⟩ := Option.bind_eq_some_iff.mp hRead
  obtain ⟨style, hStyle, hRead⟩ := Option.bind_eq_some_iff.mp hRead
  obtain ⟨props, hProps, hRead⟩ := Option.bind_eq_some_iff.mp hRead
  obtain ⟨action, hAction, hRead⟩ := Option.bind_eq_some_iff.mp hRead
  obtain ⟨actions, hActions, hRead⟩ := Option.bind_eq_some_iff.mp hRead
  obtain ⟨gate, hGate, hRead⟩ := Option.bind_eq_some_iff.mp hRead
  obtain ⟨showRule, hShowRule, hRead⟩ := Option.bind_eq_some_iff.mp hRead
  obtain ⟨entrance, hEntrance, hRead⟩ := Option.bind_eq_some_iff.mp hRead
  obtain ⟨textAnimation, hTextAnimation, hRead⟩ := Option.bind_eq_some_iff.mp hRead
  obtain ⟨interactive, hInteractive, hRead⟩ := Option.bind_eq_some_iff.mp hRead
  obtain ⟨children, hChildren, hRead⟩ := Option.bind_eq_some_iff.mp hRead
  obtain ⟨insertion, hInsertion, hRead⟩ := Option.bind_eq_some_iff.mp hRead
  obtain ⟨placement, hPlacement, hRead⟩ := Option.bind_eq_some_iff.mp hRead
  cases hRead
  -- and read again from what is written of it
  have hId := Members.optional_kept hId (fun d _ => keptAt_toString? d) rfl (hFind "id")
  have hRemove := Members.flag_kept (hFind "remove")
  have hStyle := Members.optional_kept hStyle (fun d _ => keptAt_table? d) rfl (hFind "style")
  have hProps := Members.optional_kept hProps (fun d _ => keptAt_table? d) rfl (hFind "props")
  have hAction := Members.optional_kept hAction (fun d _ => Action.kept access other d)
    rfl (hFind "action")
  have hActions := Members.optional_kept hActions
    (fun d _ => keptAt_list? fun item _ => Action.kept access other item) rfl (hFind "actions")
  have hGate := Members.optional_kept hGate (fun d _ => Gate.kept d) rfl (hFind "visibleWhen")
  have hShowRule := Members.optional_kept hShowRule (fun d _ => ShowRule.kept d) rfl
    (hFind "conditions")
  have hEntrance := Members.optional_toJson?_kept hEntrance (hFind "entrance")
  have hTextAnimation := Members.optional_toJson?_kept hTextAnimation (hFind "textAnimation")
  have hInteractive := Members.optional_toJson?_kept hInteractive (hFind "interactive")
  have hChildren := Members.optional_kept hChildren
    (fun d _ => keptAt_list? fun item _ => Element.kept access other item) rfl (hFind "children")
  have hInsertion := Members.optional_kept hInsertion (fun d _ => Insertion.kept d)
    Insertion.ofDocument?_null (hFind "insertChild")
  have hPlacement := Members.optional_kept hPlacement (fun d _ => Placement.kept d) rfl
    (hFind "position")
  rw [toDocument_toJson, ofDocument?, hRecord, Option.bind_eq_bind, Option.bind_some]
  simp only [hId, hRemove, hStyle, hProps, hAction, hActions, hGate, hShowRule, hEntrance,
    hTextAnimation, hInteractive, hChildren, hInsertion, hPlacement]
  rfl

end Change

end Onboarding
