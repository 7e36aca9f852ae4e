import Onboarding.Assistant.Reply
import Onboarding.Flow.Screen
import Onboarding.Proofs.Wire.Forest

/-!
# Onboarding — what is written is a canonical form of what can be read

A document may say a value in many ways: records as arrays, `null` for what is
missing, names as objects, blanks around a placement, members that nothing reads.
Whatever the way, the value is written in one form, and that form is read as the
same value (`canonical_form`).

## Results

* `Screen.kept`, `Flow.kept`, `Reply.kept` — screens, flows and replies are read
  again from what is written of them.
* `canonical_form` — everything that can be read is.
-/

namespace Onboarding

/-! ## Screens and flows -/

namespace Screen

/-- The fields that a content is written with. -/
def contentSlots : Content → List (String × Option Json)
  | .elements roots => [("elements", some (Element.forestToJson roots))]
  | .custom component props =>
    [("component", some (.string component)),
      ("props", if !props.isEmpty then some (Json.ofTable props) else none)]

/-- The fields that a screen is written with. -/
def slots (s : Screen) : List (String × Option Json) :=
  ("id", some (.string s.id)) :: ("name", s.name.map .string) ::
    ("hidden", if s.hidden then some (.bool true) else none) :: contentSlots s.content

theorem nodup_slots (s : Screen) : (s.slots.map Prod.fst).Nodup := by
  obtain ⟨id, name, hidden, content⟩ := s
  cases content <;> simp [slots, contentSlots]

theorem toDocument_toJson (s : Screen) :
    s.toJson.toDocument = .object (Members.written s.slots) := by
  rw [← Members.toDocument_present]
  obtain ⟨id, name, hidden, content⟩ := s
  cases content with
  | elements roots =>
    simp only [toJson, slots, contentMembers, contentSlots, Json.present_cons, Json.present_nil,
      Json.memberIf_eq, Json.optionalMember, List.cons_append, List.nil_append]
  | custom component props =>
    simp only [toJson, slots, contentMembers, contentSlots, Json.present_cons, Json.present_nil,
      Json.tableMember, Json.memberIf_eq, Json.optionalMember, List.cons_append, List.nil_append,
      List.append_nil]

/-- The content of a written screen stands in its other members. -/
theorem filter_slots (s : Screen) :
    (Members.written s.slots).filter (fun m => m.1 ∉ fieldNames) =
      Members.written (contentSlots s.content) := by
  rw [Members.filter_written (fun name => name ∉ fieldNames)]
  obtain ⟨id, name, hidden, content⟩ := s
  cases content <;> simp [slots, contentSlots, fieldNames]

/-- A content that is read is read again from its fields. -/
theorem content?_slots {ms : Members} {content : Content} (hRead : content? ms = some content) :
    content? (Members.written (contentSlots content)) = some content := by
  have hNodup : ((contentSlots content).map Prod.fst).Nodup := by
    cases content <;> simp [contentSlots]
  have hFind (key : String) := Members.find?_written hNodup key
  have hRepeats := Members.repeatsAny_eq_false (Members.nodup_written hNodup)
  rw [content?, Option.ite_none_right_eq_some, Document.firstOf_eq_some_iff] at hRead
  rw [content?, if_pos (Members.isReadable_written _)]
  obtain ⟨-, hElements | ⟨-, hCustom⟩⟩ := hRead
  · rw [elementsContent?, Option.ite_none_left_eq_some] at hElements
    obtain ⟨roots, hRoots, rfl⟩ := Option.map_eq_some_iff.mp hElements.2
    have hRoots := Members.required_kept hRoots
      (fun d _ => keptAt_list? fun item _ => Element.kept .tried .tried item) (hFind "elements")
    rw [elementsContent?, hRepeats, hRoots]
    rfl
  · -- what is written of a component has no elements
    rw [customContent?, Option.ite_none_left_eq_some] at hCustom
    obtain ⟨component, hComponent, hCustom⟩ := Option.bind_eq_some_iff.mp hCustom.2
    obtain ⟨props, hProps, rfl⟩ := Option.map_eq_some_iff.mp hCustom
    have hNoElements : Members.required (Members.written (contentSlots (.custom component props)))
        "elements" (Document.list? (Element.ofDocument? .tried)) = none := by
      rw [Members.required, hFind "elements"]
      rfl
    have hComponent := Members.required_kept hComponent (fun d _ => keptAt_toString? d)
      (hFind "component")
    have hProps := Members.table_kept hProps (hFind "props")
    rw [elementsContent?, hRepeats, hNoElements, customContent?, hRepeats, hComponent,
      Option.bind_some, hProps]
    rfl

/-- A screen that is read is read again from what is written of it. -/
theorem kept (d : Document) : KeptAt ofDocument? ofDocument? toJson d := by
  intro s hRead
  unfold ofDocument? at hRead
  split at hRead
  · next ms =>
    have hFind (key : String) := Members.find?_written s.nodup_slots key
    have hRepeats := Members.repeatsAny_eq_false (Members.nodup_written s.nodup_slots)
    have hRest := s.filter_slots
    rw [Option.ite_none_left_eq_some] at hRead
    obtain ⟨-, hRead⟩ := hRead
    simp only [Option.bind_eq_bind, Option.bind_eq_some_iff] at hRead
    obtain ⟨id, hId, name, hName, hidden, hHidden, content, hContent, hSome⟩ := hRead
    cases hSome
    have hId := Members.required_kept hId (fun d _ => keptAt_toString? d) (hFind "id")
    have hName := Members.optional_kept hName (fun d _ => keptAt_toString? d) rfl (hFind "name")
    have hHidden := Members.flag_kept (hFind "hidden")
    rw [toDocument_toJson, ofDocument?, hRepeats, hId, hName, hHidden, hRest,
      content?_slots hContent]
    rfl
  · cases hRead

end Screen

namespace Experiment

/-- The fields that an experiment is written with. -/
def slots (e : Experiment) : List (String × Option Json) :=
  [("id", some (.string e.id)), ("name", e.name.map .string)]

theorem nodup_slots (e : Experiment) : (e.slots.map Prod.fst).Nodup := by
  simp [slots]

theorem toDocument_toJson (e : Experiment) :
    e.toJson.toDocument = .object (Members.written e.slots) := by
  rw [← Members.toDocument_present]
  obtain ⟨id, name⟩ := e
  cases name <;> rfl

theorem kept (d : Document) : KeptAt ofDocument? ofDocument? toJson d := by
  intro e hRead
  have hFind (key : String) := Members.find?_written e.nodup_slots key
  have hRecord := Members.record?_written e.nodup_slots
  have hWritten := e.toDocument_toJson
  simp only [ofDocument?, Option.bind_eq_bind, Option.bind_eq_some_iff] at hRead
  obtain ⟨ms, -, id, hId, name, hName, hSome⟩ := hRead
  cases hSome
  have hId := Members.required_kept hId (fun d _ => keptAt_toString? d) (hFind "id")
  have hName := Members.optional_kept hName (fun d _ => keptAt_toString? d) rfl (hFind "name")
  simp only [ofDocument?, hWritten, hRecord, Option.bind_eq_bind, Option.bind_some, hId, hName]

end Experiment

namespace Flow

/-- The fields that a flow is written with. -/
def slots (f : Flow) : List (String × Option Json) :=
  [("screens", some (.array (f.screens.map Screen.toJson))),
    ("experiments", if !f.experiments.isEmpty then
      some (.array (f.experiments.map Experiment.toJson)) else none)]

theorem nodup_slots (f : Flow) : (f.slots.map Prod.fst).Nodup := by
  simp [slots]

theorem toDocument_toJson (f : Flow) :
    f.toJson.toDocument = .object (Members.written f.slots) := by
  rw [← Members.toDocument_present]
  simp only [toJson, slots, Json.present_cons, Json.present_nil, Json.memberIf_eq,
    Json.optionalMember, List.cons_append, List.nil_append, List.append_nil]

/-- A flow that is read is read again from what is written of it. -/
theorem kept (d : Document) : KeptAt ofDocument? ofDocument? toJson d := by
  intro f hRead
  have hFind (key : String) := Members.find?_written f.nodup_slots key
  have hRecord := Members.record?_written f.nodup_slots
  have hWritten := f.toDocument_toJson
  simp only [ofDocument?, Option.bind_eq_bind, Option.bind_eq_some_iff] at hRead
  obtain ⟨ms, -, screens, hScreens, experiments, hExperiments, hSome⟩ := hRead
  cases hSome
  have hScreens := Members.required_kept hScreens
    (fun d _ => keptAt_list? fun item _ => Screen.kept item) (hFind "screens")
  have hExperiments := Members.withDefault_kept_or_skip experiments.isEmpty hExperiments
    (fun d _ => keptAt_list? fun item _ => Experiment.kept item) rfl List.isEmpty_iff.mp
    (hFind "experiments")
  simp only [ofDocument?, hWritten, hRecord, Option.bind_eq_bind, Option.bind_some, hScreens,
    hExperiments]

end Flow

/-! ## Replies -/

namespace Reply

/-- The fields that a reply is written with, besides its type. -/
def slots : Reply → List (String × Option Json)
  | message content => [("content", some (.string content))]
  | edit changes text =>
    [("changes", some (.array (changes.map Change.toJson))), ("message", some (.string text))]
  | generation roots text =>
    [("elements", some (Element.forestToJson roots)), ("message", some (.string text))]

theorem nodup_slots (r : Reply) :
    ((("type", some (.string r.kind.name)) :: r.slots).map Prod.fst).Nodup := by
  cases r <;> simp [slots]

theorem toDocument_toJson (r : Reply) : r.toJson.toDocument =
    .object (Members.written (("type", some (.string r.kind.name)) :: r.slots)) := by
  rw [← Members.toDocument_present]
  cases r <;> rfl

/-- A reply that is read is read again from its fields. -/
theorem ofRest?_slots {rest : Document} {kind : ReplyKind} {r : Reply}
    (hRead : ofRest? rest kind = some r) :
    ofRest? (.object (Members.written r.slots)) r.kind = some r := by
  have hNodup := (List.nodup_cons.mp r.nodup_slots).2
  have hFind (key : String) := Members.find?_written hNodup key
  have hRecord := Members.record?_written hNodup
  -- each alternative reads its own slots back, by the law of the reader it uses
  cases kind with
  | message =>
    simp only [ofRest?, Option.bind_eq_bind, Option.bind_eq_some_iff] at hRead
    obtain ⟨ms, -, content, hContent, hSome⟩ := hRead
    cases hSome
    have hContent := Members.withDefault_kept hContent (fun d _ => keptAt_toString? d) rfl
      (hFind "content")
    simp only [Reply.kind, ofRest?, hRecord, Option.bind_eq_bind, Option.bind_some, hContent]
  | edit =>
    simp only [ofRest?, Option.bind_eq_bind, Option.bind_eq_some_iff] at hRead
    obtain ⟨ms, -, changes, hChanges, text, hText, hSome⟩ := hRead
    cases hSome
    have hChanges := Members.withDefault_kept hChanges
      (fun d _ => keptAt_list? fun item _ => Change.kept .tagged .tagged item) rfl
      (hFind "changes")
    have hText := Members.withDefault_kept hText (fun d _ => keptAt_toString? d) rfl
      (hFind "message")
    simp only [Reply.kind, ofRest?, hRecord, Option.bind_eq_bind, Option.bind_some, hChanges,
      hText]
  | generation =>
    simp only [ofRest?, Option.bind_eq_bind, Option.bind_eq_some_iff] at hRead
    obtain ⟨ms, -, roots, hRoots, text, hText, hSome⟩ := hRead
    cases hSome
    have hRoots := Members.withDefault_kept hRoots
      (fun d _ => keptAt_list? fun item _ => Element.kept .tagged .tagged item) rfl
      (hFind "elements")
    have hText := Members.withDefault_kept hText (fun d _ => keptAt_toString? d) rfl
      (hFind "message")
    simp only [Reply.kind, ofRest?, hRecord, Option.bind_eq_bind, Option.bind_some, hRoots, hText]

/-- A reply that is read is read again from what is written of it. -/
theorem kept (d : Document) : KeptAt ofDocument? ofDocument? toJson d := by
  intro r hRead
  obtain ⟨⟨tag, rest⟩, -, hRead⟩ := Option.bind_eq_some_iff.mp hRead
  obtain ⟨kind, -, hRest⟩ := Option.bind_eq_some_iff.mp hRead
  have hName : ReplyKind.ofName? r.kind.name = some r.kind := by
    cases r.kind <;> rfl
  rw [ofDocument?, toDocument_toJson, Members.tagged?_written r.nodup_slots]
  show (ReplyKind.ofName? r.kind.name).bind _ = _
  rw [hName, Option.bind_some]
  exact ofRest?_slots hRest

end Reply

/-! ## The canonical form -/

/-- **What is written is a canonical form.** Whatever a document is read as, in whichever of the
ways it may say it, what is written of that is read as the same again: elements and changes by every
access, wherever they stood when they were read. The documents include those of all values. -/
theorem canonical_form :
    (∀ access other d, KeptAt (Element.ofDocument? access) (Element.ofDocument? other)
      Element.toJson d) ∧
    (∀ d, KeptAt Condition.ofDocument? Condition.ofDocument? Condition.toJson d) ∧
    (∀ d, KeptAt Destination.ofDocument? Destination.ofDocument? Destination.toJson d) ∧
    (∀ access other d, KeptAt (Change.ofDocument? access) (Change.ofDocument? other)
      Change.toJson d) ∧
    (∀ d, KeptAt Reply.ofDocument? Reply.ofDocument? Reply.toJson d) ∧
    (∀ d, KeptAt Screen.ofDocument? Screen.ofDocument? Screen.toJson d) ∧
    ∀ d, KeptAt Flow.ofDocument? Flow.ofDocument? Flow.toJson d :=
  ⟨Element.kept, Condition.kept, Destination.kept, Change.kept, Reply.kept, Screen.kept, Flow.kept⟩

/-- A change: an array for an element, an object for a name and blanks around a placement. A flow:
arrays for itself, for an element and for an experiment, `null` for a name, and a member that
nothing reads. -/
theorem canonical_form_mixed :
    let insertion : Document := .object [("insertChild", .object [
      ("element", .array [.string "e", .object [("text", .null)]]),
      ("position", .string " before: x ")])]
    let c : Change := { insertion := some (.placed (.plain "e" .text) (some (.before "x"))) }
    let screens : List Document := [
      .object [("name", .null), ("elements", .array [.array [.string "e", .string "text"]]),
        ("id", .string "s")],
      .object [("id", .string "t"), ("component", .string "Chart"), ("unread", .bool true),
        ("props", .object [("n", .number (.int 1))]), ("hidden", .bool true)]]
    let flow : Document := .array [.array screens, .array [.array [.string "x", .null]]]
    let f : Flow := {
      screens := [{ id := "s", content := .elements [.plain "e" .text] },
        { id := "t", hidden := true, content := .custom "Chart" (.ofList [("n", .int 1)]) }]
      experiments := [{ id := "x" }] }
    Change.ofDocument? .direct insertion = some c ∧
      Change.ofDocument? .direct c.toJson.toDocument = some c ∧
      Flow.ofDocument? flow = some f ∧ Flow.ofDocument? f.toJson.toDocument = some f := by
  intro insertion c screens flow f
  have hInsertion : Change.ofDocument? .direct insertion = some c := rfl
  have hFlow : Flow.ofDocument? flow = some f := rfl
  obtain ⟨-, -, -, hChanges, -, -, hFlows⟩ := canonical_form
  exact ⟨hInsertion, hChanges .direct .direct insertion c hInsertion, hFlow,
    hFlows flow f hFlow⟩

end Onboarding
