import Onboarding.Flow.Session

/-!
# Onboarding — the operations of a session

A host prepares a new session and then asks it for operations in any order. All
that an operation can do is said once, by a `Turn`: it does nothing, or it fails
to load the flow, or it begins the flow, or it changes data of the screen that
is shown and records actions, after which the flow may move on.

What is told goes out in pairs: `announce` tells a milestone and tracks the
record that belongs to it, and nothing else tells one.

## Results

* `happen_cases` — an event changes nothing or makes a move.
* `perform_turn` — what an operation does to a sound session.
* `sound_perform`, `sound_run` — a sound session stays sound along every run.
-/

namespace Onboarding.Session

/-! ## Preparing -/

/-- What a host sets on a new session. -/
inductive Preparation where
  | variables (vars : Table Json)
  | components (components : NameSet)
  | analytics
  | opener (opener : LinkHandler)

/-- The session after a preparation. -/
def prepare (s : Session) : Preparation → Session
  | .variables vars => { s with vars }
  | .components components => { s with components }
  | .analytics => { s with hasAnalytics := true }
  | .opener opener => { s with opener }

/-- A new session of a user after preparations in turn. -/
def prepared (user : String) (ps : List Preparation) : Session := ps.foldl prepare { user }

/-- However a session is prepared, nothing has happened in it. -/
theorem exists_prepared (user : String) (ps : List Preparation) :
    ∃ vars components hasAnalytics opener,
      prepared user ps = { user, vars, components, hasAnalytics, opener } := by
  have hFold (s : Session) (hNew : ∃ vars components hasAnalytics opener,
      s = { user, vars, components, hasAnalytics, opener }) :
      ∃ vars components hasAnalytics opener,
        ps.foldl prepare s = { user, vars, components, hasAnalytics, opener } := by
    induction ps generalizing s with
    | nil => exact hNew
    | cons p ps ih =>
      obtain ⟨vars, components, hasAnalytics, opener, rfl⟩ := hNew
      rw [List.foldl_cons]
      cases p <;> exact ih _ ⟨_, _, _, _, rfl⟩
  exact hFold { user } ⟨_, _, _, _, rfl⟩

/-! ## Operations -/

/-- What a host can ask of a session. -/
inductive Operation where
  | start (source : Source)
  | enter (screens : List Screen)
  | enterText (id text : String)
  | dispatch (id : String)
  | completeCustom (data : Table Json)
  | next
  | back
  | skip
  | leave
  | goTo (id : String)

/-- The session after an operation. -/
def perform (s : Session) : Operation → Session
  | .start source => (s.start source).1
  | .enter screens => (s.enter screens).1
  | .enterText id text => (s.enterText id text).1
  | .dispatch id => (s.dispatch id).1
  | .completeCustom data => (s.completeCustom data).1
  | .next => s.next
  | .back => s.back
  | .skip => s.skip
  | .leave => s.leave
  | .goTo id => s.goTo id

/-- Whether an operation loads the flow. -/
def loads (s : Session) : Operation → Bool
  | .start source => (s.start source).2.isOk
  | .enter screens => (s.enter screens).2.isOk
  | _ => false

/-- The session after operations in turn. -/
def run (s : Session) (ops : List Operation) : Session := ops.foldl perform s

/-- A run performs its first operation and goes on from there. -/
@[simp] theorem run_cons (s : Session) (op : Operation) (ops : List Operation) :
    s.run (op :: ops) = (s.perform op).run ops := rfl

/-! ## Announcements -/

/-- The record that belongs to a milestone. -/
def recordOf (s : Session) : Milestone → Record
  | .started n => ⟨Record.flowStarted, s.user, .object ([("screen_count", .int n)] ++
      Json.optionalMember "variant" (s.variant.map .string))⟩
  | .screenViewed id index => ⟨Record.screenViewed, s.user,
      .object [("screen_id", .string id), ("index", .int index)]⟩
  | .completed _ => ⟨Record.flowCompleted, s.user,
      .object [("screen_count", .int s.screens.length)]⟩
  | .abandoned id => ⟨Record.flowAbandoned, s.user,
      .object [("screen_id", Json.orNull .string id)]⟩

/-- Tell milestones in turn and track their records, if records are wanted. -/
def announce (s : Session) (ms : List Milestone) : Session :=
  { s with journal := { s.journal with
      milestones := s.journal.milestones ++ ms
      records := s.journal.records ++ if s.hasAnalytics then ms.map s.recordOf else [] } }

/-- What is told in two steps may be told in one. -/
theorem announce_announce (s : Session) (ms ns : List Milestone) :
    (s.announce ms).announce ns = s.announce (ms ++ ns) := by
  -- the records of both announcements are made from the same session
  have hSame : (s.announce ms).recordOf = s.recordOf := by
    funext m
    cases m <;> rfl
  rw [announce, hSame]
  cases hWanted : s.hasAnalytics <;> simp [announce, hWanted]

/-- A milestone told behind its own record is announced. -/
theorem tell_track (s : Session) (m : Milestone) :
    (s.track (s.recordOf m).event (s.recordOf m).properties).tell m = s.announce [m] := by
  have hUser : (s.recordOf m).user = s.user := by cases m <;> rfl
  cases hWanted : s.hasAnalytics <;> simp [track, tell, announce, hWanted, ← hUser]

/-- Entering a screen tells that it is viewed, with its place in the flow. -/
theorem enterScreen_eq {s : Session} {i : Nat} {screen : Screen} (hStage : s.stage = .ready i)
    (hScreen : s.screens[i]? = some screen) :
    s.enterScreen = s.announce [.screenViewed screen.id i] := by
  rw [← tell_track, enterScreen, hStage]
  simp only [Stage.index?, hScreen]
  rfl

/-- A flow that completes tells its data, and keeps them. -/
theorem complete_eq {s : Session} (hOpen : s.completion = none) :
    s.complete = { s.announce [.completed s.payload] with completion := some s.payload } := by
  rw [← tell_track, complete, hOpen]
  rfl

/-- A flow that is abandoned tells the screen that was left. -/
theorem abandon_eq (s : Session) (id : Option String) :
    s.abandon id = s.announce [.abandoned id] := by
  rw [← tell_track]
  rfl

/-- The record of an action. -/
def actionRecord (s : Session) (screenId : String) (r : ActionTrace) : Record :=
  ⟨Record.actionTriggered, s.user, actionProperties screenId r⟩

/-- Actions leave their records in the journal, and nothing else. -/
theorem trackActions_eq (s : Session) (screenId : String) (rs : List ActionTrace) :
    s.trackActions screenId rs = { s with journal := { s.journal with
      records := s.journal.records ++
        if s.hasAnalytics then rs.map (s.actionRecord screenId) else [] } } := by
  induction rs generalizing s with
  | nil => simp [trackActions]
  | cons r rs ih =>
    rw [trackActions, ih]
    cases hWanted : s.hasAnalytics <;> simp [track, hWanted, actionRecord]

/-! ## Soundness -/

/-- What holds of a session between two operations. -/
structure Sound (s : Session) : Prop where
  visible : ∀ screen ∈ s.screens, screen.hidden = false
  inRange : ∀ i, s.stage = .ready i → i < s.screens.length
  completion : s.completion = if s.stage = .completed then some s.payload else none

/-- A new session is sound, however it was prepared. -/
theorem sound_prepared (user : String) (ps : List Preparation) : (prepared user ps).Sound := by
  obtain ⟨vars, components, hasAnalytics, opener, hNew⟩ := exists_prepared user ps
  rw [hNew]
  exact ⟨by simp, by simp, rfl⟩

/-! ## Moves -/

/-- Where a flow goes from the screen at an index, and what is told of it. -/
inductive Move (s : Session) (i : Nat) : Stage → Milestone → Prop where
  | view {j : Nat} {screen : Screen} (hOther : j ≠ i) (hScreen : s.screens[j]? = some screen) :
    Move s i (.ready j) (.screenViewed screen.id j)
  | complete : Move s i .completed (.completed s.payload)
  | abandon {screen : Screen} (hScreen : s.screens[i]? = some screen) :
    Move s i .abandoned (.abandoned (some screen.id))

/-- The session after a move. -/
def moved (s : Session) (next : Stage) (m : Milestone) : Session :=
  { s.announce [m] with
    stage := next
    completion := if next = .completed then some s.payload else none }

section Moves

variable {s : Session} {i : Nat}

/-- A screen that is found is one of the flow. -/
theorem indexOf?_lt {id : String} {j : Nat} (h : s.indexOf? id = some j) :
    j < s.screens.length := by
  rw [indexOf?, List.findIdx?_eq_some_iff_getElem] at h
  exact h.1

/-- Behind the screen at an index comes a screen that there is, or the end. -/
theorem following_cases (i n : Nat) : Stage.following i n = .completed ∨
    ∃ j < n, Stage.following i n = .ready j := by
  unfold Stage.following
  split
  · exact .inl rfl
  · next hLt => exact .inr ⟨_, Nat.not_le.mp hLt, rfl⟩

/-- The stages that an event can lead to from a screen. -/
theorem apply_ready_cases (hRange : i < s.screens.length) (event : StageEvent) :
    let next := (Stage.ready i).apply event s.screens.length s.indexOf?
    next = .completed ∨ next = .abandoned ∨ ∃ j < s.screens.length, next = .ready j := by
  have hFollowing := following_cases i s.screens.length
  -- an id that no screen has is a step forward, and `back` stops at the first screen
  cases event with
  | loaded n => exact .inr (.inr ⟨i, hRange, rfl⟩)
  | loadFailed message => exact .inr (.inr ⟨i, hRange, rfl⟩)
  | next => exact hFollowing.imp_right .inr
  | skip => exact hFollowing.imp_right .inr
  | back => exact .inr (.inr ⟨i - 1, by omega, rfl⟩)
  | leave => exact .inr (.inl rfl)
  | goTo id =>
    simp only [Stage.apply]
    cases hIndex : s.indexOf? id with
    | some j => exact .inr (.inr ⟨j, indexOf?_lt hIndex, rfl⟩)
    | none => exact hFollowing.imp_right .inr

/-- The screen that is shown is the one at the index. -/
theorem shownScreen?_eq (hStage : s.stage = .ready i) : s.shownScreen? = s.screens[i]? := by
  rw [shownScreen?, hStage]
  rfl

/-- An event that happens on a screen changes nothing or makes a move. -/
theorem happen_cases (hSound : s.Sound) (hStage : s.stage = .ready i) (event : StageEvent) :
    s.happen event = s ∨ ∃ next m, Move s i next m ∧ s.happen event = s.moved next m := by
  have hRange := hSound.inRange i hStage
  -- the flow is not completed, so completing it takes the data
  have hOpen : s.completion = none := by rw [hSound.completion, hStage]; rfl
  have hCases := apply_ready_cases hRange event
  rw [← hStage] at hCases
  unfold happen
  generalize s.stage.apply event s.screens.length s.indexOf? = next at hCases
  by_cases hSame : next = s.stage
  · exact .inl (if_pos hSame)
  · right
    simp only [if_neg hSame]
    rcases hCases with rfl | rfl | ⟨j, hLt, rfl⟩
    · refine ⟨_, _, .complete, ?_⟩
      rw [complete_eq (by exact hOpen)]
      rfl
    · have hScreen := List.getElem?_eq_getElem hRange
      refine ⟨_, _, .abandon hScreen, ?_⟩
      rw [abandon_eq, shownId?, shownScreen?_eq hStage, hScreen, moved, ← hOpen]
      rfl
    · have hScreen := List.getElem?_eq_getElem hLt
      -- another stage is another index
      have hOther : j ≠ i := by
        rintro rfl
        exact hSame hStage.symm
      refine ⟨_, _, .view hOther hScreen, ?_⟩
      rw [enterScreen_eq rfl (by exact hScreen), moved, ← hOpen]
      rfl

end Moves

/-! ## Turns -/

/-- The session `t` differs from `s` in data, in links, and in actions that are recorded. -/
structure Acts (s t : Session) : Prop where
  user : t.user = s.user
  screens : t.screens = s.screens
  stage : t.stage = s.stage
  variant : t.variant = s.variant
  hasAnalytics : t.hasAnalytics = s.hasAnalytics
  completion : t.completion = s.completion
  milestones : t.journal.milestones = s.journal.milestones
  records : ∃ actions, t.journal.records = s.journal.records ++ actions ∧
    ∀ r ∈ actions, r.event = Record.actionTriggered

/-- All that an operation can do to a session, and whether the flow is loaded by it. -/
inductive Turn (s : Session) : Bool → Session → Prop where
  | idle : Turn s false s
  | fail (variant : Option String) (queries : List (String × String)) {screens : List Screen}
    (message : String) (hStage : s.stage = .loading)
    (hScreens : screens = s.screens ∨ screens = []) :
    Turn s false { s with
      variant, screens, stage := .failed message, journal := { s.journal with queries } }
  | begin (variant : Option String) (queries : List (String × String)) {first : Screen}
    {rest : List Screen} (hStage : s.stage = .loading)
    (hVisible : ∀ screen ∈ first :: rest, screen.hidden = false) :
    Turn s true (announce { s with
        variant, screens := first :: rest, stage := .ready 0
        journal := { s.journal with queries } }
      [.started (rest.length + 1), .screenViewed first.id 0])
  | act {i : Nat} {t : Session} (hStage : s.stage = .ready i) (hActs : Acts s t) : Turn s false t
  | move {i : Nat} {t : Session} {next : Stage} {m : Milestone} (hStage : s.stage = .ready i)
    (hActs : Acts s t) (hMove : Move t i next m) : Turn s false (t.moved next m)

section Turns

variable {s t : Session}

/-- A session with the same journal has run no actions. -/
theorem Acts.of_journal_eq (user : t.user = s.user) (screens : t.screens = s.screens)
    (stage : t.stage = s.stage) (variant : t.variant = s.variant)
    (hasAnalytics : t.hasAnalytics = s.hasAnalytics) (completion : t.completion = s.completion)
    (hJournal : t.journal = s.journal) : Acts s t :=
  ⟨user, screens, stage, variant, hasAnalytics, completion, congrArg _ hJournal,
    [], by simp [hJournal], by simp⟩

/-- Running no action changes nothing. -/
theorem Acts.refl (s : Session) : Acts s s := .of_journal_eq rfl rfl rfl rfl rfl rfl rfl

/-- Actions leave a session sound. -/
theorem Acts.sound (hActs : Acts s t) {i : Nat} (hStage : s.stage = .ready i) (hSound : s.Sound) :
    t.Sound := by
  refine ⟨hActs.screens ▸ hSound.visible, ?_, ?_⟩
  · rw [hActs.stage, hActs.screens]
    exact hSound.inRange
  · -- on a screen there is no data of a completed flow, whatever the data is
    rw [hActs.completion, hSound.completion, hActs.stage, hStage]
    rfl

/-- An event behind what an operation changed on a screen. -/
theorem turn_happen (hSound : s.Sound) {i : Nat} (hStage : s.stage = .ready i) (hActs : Acts s t)
    (event : StageEvent) : Turn s false (t.happen event) := by
  have hStage' : t.stage = .ready i := hActs.stage.trans hStage
  rcases happen_cases (hActs.sound hStage hSound) hStage' event with hSame | ⟨next, m, hMove, hEq⟩
  · rw [hSame]
    exact .act hStage hActs
  · rw [hEq]
    exact .move hStage hActs hMove

theorem shownScreen?_eq_none (hIndex : s.stage.index? = none) : s.shownScreen? = none := by
  rw [shownScreen?, hIndex]
  rfl

/-- Only a flow that is ready has an index. -/
theorem exists_ready_of_index? {i : Nat} {stage : Stage} (h : stage.index? = some i) :
    stage = .ready i := by
  cases stage with
  | ready j => rw [Stage.index?, Option.some.injEq] at h; rw [h]
  | _ => simp [Stage.index?] at h

/-- A host's own event changes nothing where no screen is shown. -/
theorem turn_event (hSound : s.Sound) {event : StageEvent}
    (hEvent : ∀ stage : Stage, stage.index? = none → ∀ n f, stage.apply event n f = stage) :
    Turn s false (s.happen event) := by
  cases hIndex : s.stage.index? with
  | none =>
    have hSame := hEvent s.stage hIndex s.screens.length s.indexOf?
    rw [happen, if_pos hSame]
    exact .idle
  | some i => exact turn_happen hSound (exists_ready_of_index? hIndex) (Acts.refl s) event

/-- Choosing a variant changes nothing but the variant and what was asked. -/
theorem exists_chooseVariant (s : Session) (source : Source) (flow : Flow) :
    ∃ variant queries, (s.chooseVariant source flow).1 =
      { s with variant, journal := { s.journal with queries } } := by
  unfold chooseVariant
  cases flow.experiments with
  | nil => exact ⟨s.variant, s.journal.queries, rfl⟩
  | cons experiment rest =>
    simp only
    split
    · exact ⟨_, _, rfl⟩
    · exact ⟨s.variant, _, rfl⟩

/-- Entering a flow begins it or fails for want of a screen, if the session is still loading. -/
theorem enter_cases (s : Session) (screens : List Screen) :
    (s.stage ≠ .loading ∧ s.enter screens = (s, .error s.stageError)) ∨
    (s.stage = .loading ∧ ((s.enter screens) =
        ({ s with screens := [], stage := .failed Stage.noScreensMessage }, .error .noScreens) ∨
      ∃ first rest, (∀ screen ∈ first :: rest, screen.hidden = false) ∧
        s.enter screens = (announce { s with screens := first :: rest, stage := .ready 0 }
          [.started (rest.length + 1), .screenViewed first.id 0], .ok ()))) := by
  unfold enter
  by_cases hStage : s.stage = .loading
  · refine .inr ⟨hStage, ?_⟩
    rw [if_neg (not_not_intro hStage), hStage]
    have hVisible : ∀ screen ∈ screens.filter fun screen => !screen.hidden,
        screen.hidden = false := fun screen hScreen => by
      simpa using (List.mem_filter.mp hScreen).2
    generalize screens.filter (fun screen => !screen.hidden) = shown at hVisible
    cases shown with
    | nil => exact .inl rfl
    | cons first rest =>
      refine .inr ⟨first, rest, hVisible, ?_⟩
      let entered : Session := { s with screens := first :: rest, stage := .ready 0 }
      -- the start is told first, and then the screen at index zero
      have hStarted := entered.tell_track (.started (rest.length + 1))
      have hFirst : (entered.announce [.started (rest.length + 1)]).screens[0]? = some first := rfl
      have hViewed := enterScreen_eq rfl hFirst
      rw [announce_announce] at hViewed
      rw [← hStarted] at hViewed
      exact congrArg (·, Except.ok ()) hViewed
  · exact .inl ⟨hStage, by rw [if_pos hStage]⟩

/-- Only on a screen is there an element to act on. -/
theorem exists_ready_of_shownScreen? {screen : Screen} (h : s.shownScreen? = some screen) :
    ∃ i, s.stage = .ready i := by
  rw [shownScreen?, Option.bind_eq_some_iff] at h
  obtain ⟨i, hIndex, -⟩ := h
  exact ⟨i, exists_ready_of_index? hIndex⟩

/-- An element is found only in a flow that is ready. -/
theorem exists_ready_of_currentElement {id : String} {e : Element}
    (h : s.currentElement id = .ok e) : ∃ i, s.stage = .ready i := by
  cases hScreen : s.shownScreen? with
  | none => simp [currentElement, hScreen] at h
  | some screen => exact exists_ready_of_shownScreen? hScreen

/-- A dispatch records every action before it follows the departure. -/
theorem exists_dispatch {id : String} {e : Element} (hElement : s.currentElement id = .ok e) :
    ∃ t, Acts s t ∧ (s.dispatch id).1 = t.follow
      (e.dispatch s.collected s.opener
        { vars := s.vars, selection := s.selection, inputs := s.inputs }).2.departure := by
  rw [dispatch, hElement]
  simp only [trackActions_eq]
  -- the session before the departure is what the equation says it is
  refine ⟨_, ?_, rfl⟩
  refine ⟨rfl, rfl, rfl, rfl, rfl, rfl, rfl, _, rfl, fun r hr => ?_⟩
  split at hr
  · obtain ⟨trace, -, rfl⟩ := List.mem_map.mp hr
    rfl
  · cases hr

/-- Whatever departure the actions ask for, it is followed from the screen that is shown. -/
theorem turn_follow (hSound : s.Sound) {i : Nat} (hStage : s.stage = .ready i) (hActs : Acts s t) :
    ∀ departure, Turn s false (t.follow departure)
  | none => .act hStage hActs
  | some (.go .next) => turn_happen hSound hStage hActs .next
  | some (.go .previous) => turn_happen hSound hStage hActs .back
  | some (.go (.screen id)) => turn_happen hSound hStage hActs (.goTo id)
  | some .dismiss => turn_happen hSound hStage hActs .leave

/-- What an operation does to a sound session. -/
theorem perform_turn (hSound : s.Sound) (op : Operation) :
    Turn s (s.loads op) (s.perform op) := by
  cases op with
  | start source =>
    show Turn s (s.start source).2.isOk (s.start source).1
    unfold start
    by_cases hStage : s.stage = .loading
    · rw [if_neg (not_not_intro hStage)]
      cases source.fetch with
      | error e =>
        have hFail := Turn.fail s.variant s.journal.queries e.message hStage (.inl rfl)
        simp only [hStage]
        exact hFail
      | ok flow =>
        -- the variant is chosen first and kept even if no screen is left to be shown
        obtain ⟨variant, queries, hChosen⟩ := s.exists_chooseVariant source flow
        simp only [hChosen]
        generalize (s.chooseVariant source flow).2 = screens
        rcases enter_cases { s with variant, journal := { s.journal with queries } } screens with
          ⟨hOther, -⟩ | ⟨-, hEnter | ⟨first, rest, hVisible, hEnter⟩⟩
        · exact absurd hStage hOther
        · rw [hEnter]
          exact .fail variant queries _ hStage (.inr rfl)
        · rw [hEnter]
          exact .begin variant queries hStage hVisible
    · rw [if_pos hStage]
      exact .idle
  | enter screens =>
    show Turn s (s.enter screens).2.isOk (s.enter screens).1
    rcases s.enter_cases screens with
      ⟨-, hEnter⟩ | ⟨hStage, hEnter | ⟨first, rest, hVisible, hEnter⟩⟩
    · rw [hEnter]
      exact .idle
    · rw [hEnter]
      exact .fail s.variant s.journal.queries _ hStage (.inr rfl)
    · rw [hEnter]
      exact .begin s.variant s.journal.queries hStage hVisible
  | enterText id text =>
    show Turn s false (s.enterText id text).1
    unfold enterText
    cases hElement : s.currentElement id with
    | error e => exact .idle
    | ok e =>
      obtain ⟨i, hStage⟩ := exists_ready_of_currentElement hElement
      exact .act hStage (.of_journal_eq rfl rfl rfl rfl rfl rfl rfl)
  | dispatch id =>
    show Turn s false (s.dispatch id).1
    cases hElement : s.currentElement id with
    | error e =>
      rw [dispatch, hElement]
      exact .idle
    | ok e =>
      obtain ⟨i, hStage⟩ := exists_ready_of_currentElement hElement
      obtain ⟨t, hActs, hFollow⟩ := exists_dispatch hElement
      rw [hFollow]
      exact turn_follow hSound hStage hActs _
  | completeCustom data =>
    show Turn s false (s.completeCustom data).1
    unfold completeCustom
    cases hScreen : s.shownScreen? with
    | none => exact .idle
    | some screen =>
      obtain ⟨i, hStage⟩ := exists_ready_of_shownScreen? hScreen
      by_cases hCustom : screen.isCustom = true
      · have hActs : Acts s { s with
            collected := s.collected.extend data, vars := s.vars.extend data } :=
          .of_journal_eq rfl rfl rfl rfl rfl rfl rfl
        simp only [if_pos hCustom]
        exact turn_happen hSound hStage hActs .next
      · simp only [if_neg hCustom]
        exact .idle
  -- none of the events of a host changes a stage without a screen
  | next => exact turn_event hSound fun stage h n f => by cases stage <;> first | rfl | cases h
  | back => exact turn_event hSound fun stage h n f => by cases stage <;> first | rfl | cases h
  | skip => exact turn_event hSound fun stage h n f => by cases stage <;> first | rfl | cases h
  | leave => exact turn_event hSound fun stage h n f => by cases stage <;> first | rfl | cases h
  | goTo id => exact turn_event hSound fun stage h n f => by cases stage <;> first | rfl | cases h

/-! ## Runs -/

/-- An operation leaves a sound session sound. -/
theorem Turn.sound {loaded : Bool} (hTurn : Turn s loaded t) (hSound : s.Sound) : t.Sound := by
  cases hTurn with
  | idle => exact hSound
  | fail variant queries message hStage hScreens =>
    -- a loading session holds no data of a completed flow, and gets none
    have hOpen := hSound.completion
    rw [hStage] at hOpen
    refine ⟨?_, by simp, hOpen⟩
    rcases hScreens with rfl | rfl
    · exact hSound.visible
    · simp
  | begin variant queries hStage hVisible =>
    have hOpen := hSound.completion
    rw [hStage] at hOpen
    refine ⟨hVisible, fun i hi => ?_, hOpen⟩
    cases hi
    exact Nat.succ_pos _
  | act hStage hActs => exact hActs.sound hStage hSound
  | move hStage hActs hMove =>
    have hVisible := (hActs.sound hStage hSound).visible
    cases hMove with
    | view hOther hScreen =>
      refine ⟨hVisible, fun i hi => ?_, rfl⟩
      cases hi
      exact (List.getElem?_eq_some_iff.mp hScreen).1
    | complete => exact ⟨hVisible, by simp [moved], rfl⟩
    | abandon hScreen => exact ⟨hVisible, by simp [moved], rfl⟩

theorem sound_perform (hSound : s.Sound) (op : Operation) : (s.perform op).Sound :=
  (perform_turn hSound op).sound hSound

/-- A sound session stays sound along every run. -/
theorem sound_run (hSound : s.Sound) (ops : List Operation) : (s.run ops).Sound := by
  induction ops generalizing s with
  | nil => exact hSound
  | cons op ops ih => exact ih (sound_perform hSound op)

end Turns

end Onboarding.Session
