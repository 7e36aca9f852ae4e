import Mathlib.Data.List.Chain
import Onboarding.Proofs.Flow.Operation

/-!
# Onboarding — the life of a flow as it is told

A session tells milestones and tracks records. The milestones of a run are
determined by the stages it goes through: nothing until the flow is loaded, then
the start and every screen that is entered, and at last how the flow ended. A
record is tracked for every milestone and for every action, the actions of a
dispatch before what they lead to, and none once the flow has ended.

Both logs are invariants of a run with the screens entered so far (`Story`,
`Tracked`); one turn extends them.

## Results

* `Turn.appends` — what an operation appends to both logs.
* `run_of_isOver` — nothing happens in a flow that is over.
* `story_run`, `tracked_run` — the two logs along a run.
* `journal_run` — both logs of every run of a prepared session.
-/

namespace Onboarding

/-- Whether the milestone is the end of a flow. -/
def Milestone.isEnd : Milestone → Bool
  | completed _ | abandoned _ => true
  | _ => false

/-- Whether the record tells the end of a flow. -/
def Record.IsFinal (r : Record) : Prop := r.event = flowCompleted ∨ r.event = flowAbandoned

namespace Session

/-! ## Runs and what they enter -/

/-- The index of the screen that a change of stage leads to, if it changes and leads to one. -/
def newlyEntered (s t : Session) : List Nat :=
  if t.stage = s.stage then [] else t.stage.index?.toList

/-- The indices of the screens that operations in turn enter. -/
def entered (s : Session) : List Operation → List Nat
  | [] => []
  | op :: ops => s.newlyEntered (s.perform op) ++ (s.perform op).entered ops

/-- Whether one of the operations in turn loads the flow. -/
def hasLoaded (s : Session) : List Operation → Bool
  | [] => false
  | op :: ops => s.loads op || (s.perform op).hasLoaded ops

/-! ## What is told -/

/-- The milestone of entering the screen at an index. -/
def view? (s : Session) (i : Nat) : Option Milestone :=
  s.screens[i]?.map fun screen => .screenViewed screen.id i

/-- What is told of the end of a flow, given the index of the last screen entered. -/
inductive Ending (s : Session) (last : Nat) : List Milestone → Prop where
  | shown (hStage : s.stage = .ready last) : Ending s last []
  | completed (hStage : s.stage = .completed) : Ending s last [.completed s.payload]
  | abandoned {screen : Screen} (hStage : s.stage = .abandoned)
    (hScreen : s.screens[last]? = some screen) : Ending s last [.abandoned (some screen.id)]

/-- The milestones of a loaded flow: the start, every screen entered, beginning with the first and
never the same one twice in a row, and the end. -/
structure Lifecycle (s : Session) (entered : List Nat) : Prop where
  first : entered.head? = some 0
  distinct : entered.IsChain (· ≠ ·)
  log : ∃ views ending last,
    s.journal.milestones = .started s.screens.length :: (views ++ ending) ∧
    views.map some = entered.map s.view? ∧ entered.getLast? = some last ∧ s.Ending last ending

/-- What a session has told, given whether the flow was loaded and the screens entered. -/
structure Story (s : Session) (loaded : Bool) (entered : List Nat) : Prop where
  silent : loaded = false → s.stage.index? = none ∧ entered = [] ∧ s.journal.milestones = []
  told : loaded = true → s.Lifecycle entered

section Turns

variable {s t : Session} {loaded : Bool} {entered : List Nat}

/-! ## One turn -/

/-- What is appended to the two logs from `s` to `t`: the actions first, then the records of what is
told, of which only the last may be the end. -/
structure Appends (s t : Session) (actions : List Record) (told : List Milestone) : Prop where
  milestones : t.journal.milestones = s.journal.milestones ++ told
  records : t.journal.records = s.journal.records ++ actions ++
    (if s.hasAnalytics then told.map t.recordOf else [])
  actions : ∀ r ∈ actions, r.event = Record.actionTriggered
  behind : told.Pairwise fun m _ => m.isEnd = false
  ending : ∀ m ∈ told, m.isEnd = true → t.stage.isOver = true

/-- Running actions changes nothing of what milestones are recorded as. -/
theorem Acts.recordOf_eq (hActs : Acts s t) : t.recordOf = s.recordOf := by
  funext m
  cases m <;> simp [recordOf, hActs.user, hActs.variant, hActs.screens]

theorem recordOf_moved (next : Stage) (m : Milestone) : (s.moved next m).recordOf = s.recordOf := by
  funext m
  cases m <;> rfl

/-- What an operation appends to the two logs. Only loading the flow tells more than one milestone
and changes what records are made of. -/
theorem Turn.appends (hTurn : Turn s loaded t) : ∃ actions told, Appends s t actions told ∧
    (loaded = false → told.length ≤ 1 ∧ told.map t.recordOf = told.map s.recordOf) := by
  cases hTurn with
  | idle => exact ⟨[], [], ⟨by simp, by simp, by simp, .nil, by simp⟩, by simp⟩
  | fail variant queries message hStage hScreens =>
    exact ⟨[], [], ⟨by simp, by simp, by simp, .nil, by simp⟩, by simp⟩
  | begin variant queries hStage hVisible =>
    refine ⟨[], _, ⟨rfl, ?_, by simp, ?_, ?_⟩, by simp⟩
    · rw [List.append_nil]
      rfl
    · simp [Milestone.isEnd]
    · simp [Milestone.isEnd]
  | act hStage hActs =>
    obtain ⟨actions, hRecords, hActions⟩ := hActs.records
    exact ⟨actions, [], ⟨by simp [hActs.milestones], by simp [hRecords], hActions, .nil, by simp⟩,
      by simp⟩
  | @move i t next m hStage hActs hMove =>
    obtain ⟨actions, hRecords, hActions⟩ := hActs.records
    -- the actions are recorded before the flow moves on
    refine ⟨actions, [m], ⟨?_, ?_, hActions, List.pairwise_singleton _ _, ?_⟩, fun _ => ?_⟩
    · rw [← hActs.milestones]
      rfl
    · rw [← hRecords, ← hActs.hasAnalytics]
      rfl
    · rw [List.forall_mem_singleton]
      intro hEnd
      cases hMove with
      | view hOther hScreen => cases hEnd
      | complete => rfl
      | abandon hScreen => rfl
    · rw [recordOf_moved, hActs.recordOf_eq]
      exact ⟨Nat.le_refl 1, rfl⟩

/-- An operation changes a session only while the flow is not over. -/
theorem Turn.eq_or_ongoing (hTurn : Turn s loaded t) : t = s ∨ s.stage.isOver = false := by
  cases hTurn with
  | idle => exact .inl rfl
  | fail variant queries message hStage hScreens => exact .inr (by rw [hStage]; rfl)
  | begin variant queries hStage hVisible => exact .inr (by rw [hStage]; rfl)
  | act hStage hActs => exact .inr (by rw [hStage]; rfl)
  | move hStage hActs hMove => exact .inr (by rw [hStage]; rfl)

/-- What records are made of changes only while the flow is loading. -/
theorem Turn.recordOf_eq (hTurn : Turn s loaded t) :
    s.stage = .loading ∨ t.recordOf = s.recordOf := by
  cases hTurn with
  | idle => exact .inr rfl
  | fail variant queries message hStage hScreens => exact .inl hStage
  | begin variant queries hStage hVisible => exact .inl hStage
  | act hStage hActs => exact .inr hActs.recordOf_eq
  | move hStage hActs hMove => exact .inr ((recordOf_moved _ _).trans hActs.recordOf_eq)

/-- No operation decides anew whether records are wanted. -/
theorem Turn.hasAnalytics_eq (hTurn : Turn s loaded t) : t.hasAnalytics = s.hasAnalytics := by
  cases hTurn with
  | act hStage hActs => exact hActs.hasAnalytics
  | move hStage hActs hMove => exact hActs.hasAnalytics
  | _ => rfl

/-- Where the stage is the same, no screen is entered. -/
theorem newlyEntered_of_eq (h : t.stage = s.stage) : s.newlyEntered t = [] := if_pos h

/-- Where it is another, its screen is entered, if it has one. -/
theorem newlyEntered_of_ne (h : t.stage ≠ s.stage) : s.newlyEntered t = t.stage.index?.toList :=
  if_neg h

/-! ## The milestones -/

/-- The flow was not loaded while it is still loading. -/
theorem Story.loaded_of_loading (h : Story s loaded entered) (hStage : s.stage = .loading) :
    loaded = false := by
  cases loaded with
  | false => rfl
  | true =>
    obtain ⟨_, _, _, -, -, -, hEnding⟩ := (h.told rfl).log
    -- once the flow was loaded, a screen is shown or the flow has ended
    cases hEnding with
    | shown hShown => simp [hStage] at hShown
    | completed hCompleted => simp [hStage] at hCompleted
    | abandoned hAbandoned hScreen => simp [hStage] at hAbandoned

/-- What is told while a screen is shown: nothing of the end, and the screen was entered last. -/
structure Showing (s : Session) (i : Nat) (entered : List Nat) (views : List Milestone) : Prop where
  stage : s.stage = .ready i
  first : entered.head? = some 0
  distinct : entered.IsChain (· ≠ ·)
  last : entered.getLast? = some i
  log : s.journal.milestones = .started s.screens.length :: views
  views : views.map some = entered.map s.view?

/-- Only a flow that was loaded shows a screen. -/
theorem Story.showing (h : Story s loaded entered) {i : Nat} (hStage : s.stage = .ready i) :
    loaded = true ∧ ∃ views, Showing s i entered views := by
  cases loaded with
  | false =>
    have hIndex := (h.silent rfl).1
    rw [hStage] at hIndex
    cases hIndex
  | true =>
    obtain ⟨hFirst, hDistinct, views, ending, last, hLog, hViews, hLast, hEnding⟩ := h.told rfl
    -- a stage that shows a screen is neither ending
    cases hEnding with
    | shown hShown =>
      rw [hStage, Stage.ready.injEq] at hShown
      rw [List.append_nil] at hLog
      exact ⟨rfl, views, hStage, hFirst, hDistinct, hShown ▸ hLast, hLog, hViews⟩
    | completed hCompleted => simp [hStage] at hCompleted
    | abandoned hAbandoned hScreen => simp [hStage] at hAbandoned

/-- What is told while a screen is shown is the beginning of a lifecycle. -/
theorem Showing.lifecycle {i : Nat} {views : List Milestone} (h : Showing s i entered views) :
    s.Lifecycle entered :=
  ⟨h.first, h.distinct, views, [], i, by rw [h.log, List.append_nil], h.views, h.last,
    .shown h.stage⟩

/-- Actions do not change the screen that is shown, nor what was told of it. -/
theorem Showing.acts {i : Nat} {views : List Milestone} (h : Showing s i entered views)
    (hActs : Acts s t) : Showing t i entered views := by
  have hView : t.view? = s.view? := by
    funext j
    rw [view?, view?, hActs.screens]
  exact ⟨hActs.stage.trans h.stage, h.first, h.distinct, h.last,
    by rw [hActs.milestones, hActs.screens, h.log], by rw [hView, h.views]⟩

/-- A move goes on with what is told. -/
theorem Showing.moved {i : Nat} {views : List Milestone} (h : Showing s i entered views)
    {next : Stage} {m : Milestone} (hMove : Move s i next m) :
    (s.moved next m).Lifecycle (entered ++ s.newlyEntered (s.moved next m)) := by
  cases hMove with
  | @view j screen hOther hScreen =>
    have hNe : (s.moved (.ready j) (.screenViewed screen.id j)).stage ≠ s.stage := by
      simp [Session.moved, h.stage, hOther]
    rw [newlyEntered_of_ne hNe]
    show (s.moved (.ready j) (.screenViewed screen.id j)).Lifecycle (entered ++ [j])
    refine ⟨?_, ?_, views ++ [.screenViewed screen.id j], [], j, ?_, ?_, ?_, .shown rfl⟩
    · rw [List.head?_append, h.first]
      rfl
    · -- the screen before is the one that is left
      refine h.distinct.append (.singleton j) fun x hx y hy => ?_
      rw [h.last, Option.mem_some_iff] at hx
      rw [List.head?_cons, Option.mem_some_iff] at hy
      rw [← hx, ← hy]
      exact hOther.symm
    · show s.journal.milestones ++ [.screenViewed screen.id j] = _
      rw [h.log, List.append_nil]
      rfl
    · show _ = (entered ++ [j]).map s.view?
      rw [List.map_append, List.map_append, h.views, List.map_singleton, List.map_singleton, view?,
        hScreen]
      rfl
    · exact List.getLast?_concat
  | complete =>
    have hNe : (s.moved .completed (.completed s.payload)).stage ≠ s.stage := by
      simp [Session.moved, h.stage]
    rw [newlyEntered_of_ne hNe]
    show (s.moved .completed (.completed s.payload)).Lifecycle (entered ++ [])
    rw [List.append_nil]
    refine ⟨h.first, h.distinct, views, _, i, ?_, h.views, h.last, .completed rfl⟩
    show s.journal.milestones ++ [.completed s.payload] = _
    rw [h.log]
    rfl
  | @abandon screen hScreen =>
    have hNe : (s.moved .abandoned (.abandoned (some screen.id))).stage ≠ s.stage := by
      simp [Session.moved, h.stage]
    rw [newlyEntered_of_ne hNe]
    show (s.moved .abandoned (.abandoned (some screen.id))).Lifecycle (entered ++ [])
    rw [List.append_nil]
    refine ⟨h.first, h.distinct, views, _, i, ?_, h.views, h.last, .abandoned rfl hScreen⟩
    show s.journal.milestones ++ [.abandoned (some screen.id)] = _
    rw [h.log]
    rfl

/-- One turn goes on with the story. -/
theorem Story.turn {loads : Bool} (h : Story s loaded entered) (hTurn : Turn s loads t) :
    Story t (loaded || loads) (entered ++ s.newlyEntered t) := by
  cases hTurn with
  | idle => rwa [newlyEntered_of_eq rfl, List.append_nil, Bool.or_false]
  | fail variant queries message hStage hScreens =>
    have hLoaded := h.loaded_of_loading hStage
    obtain ⟨-, hEntered, hMilestones⟩ := h.silent hLoaded
    rw [newlyEntered_of_ne (by simp [hStage]), hLoaded, hEntered]
    exact ⟨fun _ => ⟨rfl, rfl, hMilestones⟩, by simp⟩
  | @begin variant queries first rest hStage hVisible =>
    obtain ⟨-, hEntered, hMilestones⟩ := h.silent (h.loaded_of_loading hStage)
    rw [newlyEntered_of_ne (by simp [hStage, announce]), hEntered, Bool.or_true]
    refine ⟨by simp, fun _ => ⟨rfl, .singleton 0, [.screenViewed first.id 0], [], 0, ?_, rfl, rfl,
      .shown rfl⟩⟩
    simp [announce, hMilestones]
  | act hStage hActs =>
    obtain ⟨hLoaded, views, hShowing⟩ := h.showing hStage
    rw [newlyEntered_of_eq hActs.stage, List.append_nil, hLoaded]
    exact ⟨by simp, fun _ => (hShowing.acts hActs).lifecycle⟩
  | @move i t next m hStage hActs hMove =>
    obtain ⟨hLoaded, views, hShowing⟩ := h.showing hStage
    -- what was done before the move did not change the stage
    have hSame : s.newlyEntered (t.moved next m) = t.newlyEntered (t.moved next m) := by
      rw [newlyEntered, newlyEntered, hActs.stage]
    rw [hSame, hLoaded]
    exact ⟨by simp, fun _ => (hShowing.acts hActs).moved hMove⟩

/-- Before the first operation nothing was loaded, entered or told. -/
theorem story_prepared (user : String) (ps : List Preparation) :
    Story (prepared user ps) false [] := by
  obtain ⟨vars, components, hasAnalytics, opener, hNew⟩ := exists_prepared user ps
  rw [hNew]
  exact ⟨fun _ => ⟨rfl, rfl, rfl⟩, by simp⟩

/-- The story of a run is that of its operations in turn. -/
theorem story_run (hSound : s.Sound) (h : Story s loaded entered) (ops : List Operation) :
    Story (s.run ops) (loaded || s.hasLoaded ops) (entered ++ s.entered ops) := by
  -- the story so far is general, since every operation adds to it
  induction ops generalizing s loaded entered with
  | nil =>
    show s.Story (loaded || s.hasLoaded []) (entered ++ s.entered [])
    simpa [hasLoaded, Session.entered] using h
  | cons op ops ih =>
    have hNext := ih (sound_perform hSound op) (h.turn (perform_turn hSound op))
    rwa [Bool.or_assoc, List.append_assoc] at hNext

/-! ## The end -/

/-- Nothing happens in a flow that is over. -/
theorem perform_of_isOver (hSound : s.Sound) (hOver : s.stage.isOver = true) (op : Operation) :
    s.perform op = s :=
  (perform_turn hSound op).eq_or_ongoing.resolve_right (by simp [hOver])

theorem run_of_isOver (hSound : s.Sound) (hOver : s.stage.isOver = true) (ops : List Operation) :
    s.run ops = s := by
  induction ops with
  | nil => rfl
  | cons op ops ih => rw [run_cons, perform_of_isOver hSound hOver, ih]

/-! ## The records -/

/-- What holds of the records: without the actions they are those of the milestones, and nothing
stands behind the record of the end. -/
structure Tracked (s : Session) : Prop where
  matched : (s.journal.records.filter fun r => r.event ≠ Record.actionTriggered) =
    if s.hasAnalytics then s.journal.milestones.map s.recordOf else []
  behind : s.journal.records.Pairwise fun r _ => ¬ r.IsFinal
  ending : ∀ r ∈ s.journal.records, r.IsFinal → s.stage.isOver = true

/-- The last records are those of the last milestones. -/
theorem isFinal_recordOf {m : Milestone} : (s.recordOf m).IsFinal ↔ m.isEnd = true := by
  cases m <;> simp [recordOf, Record.IsFinal, Milestone.isEnd, Record.flowStarted,
    Record.screenViewed, Record.flowCompleted, Record.flowAbandoned]

/-- No milestone is recorded as an action. -/
theorem event_recordOf_ne (m : Milestone) : (s.recordOf m).event ≠ Record.actionTriggered := by
  cases m <;> simp [recordOf, Record.actionTriggered, Record.flowStarted,
    Record.screenViewed, Record.flowCompleted, Record.flowAbandoned]

/-- No action is recorded as an end. -/
theorem not_isFinal_of_action {r : Record} (h : r.event = Record.actionTriggered) :
    ¬ r.IsFinal := by
  simp [Record.IsFinal, h, Record.actionTriggered, Record.flowCompleted, Record.flowAbandoned]

/-- One turn goes on with the records. -/
theorem Tracked.turn (h : Tracked s) (hFresh : s.stage = .loading → s.journal.milestones = [])
    (hTurn : Turn s loaded t) : Tracked t := by
  rcases hTurn.eq_or_ongoing with rfl | hOngoing
  · exact h
  obtain ⟨actions, told, hNew, -⟩ := hTurn.appends
  -- the records of earlier milestones are as they were
  have hSame : s.journal.milestones.map t.recordOf = s.journal.milestones.map s.recordOf := by
    rcases hTurn.recordOf_eq with hStage | hEq
    · rw [hFresh hStage, List.map_nil, List.map_nil]
    · rw [hEq]
  have hActions : (actions.filter fun r => r.event ≠ Record.actionTriggered) = [] := by
    rw [List.filter_eq_nil_iff]
    intro r hr
    simp [hNew.actions r hr]
  have hTold : ((told.map t.recordOf).filter fun r => r.event ≠ Record.actionTriggered) =
      told.map t.recordOf := by
    rw [List.filter_eq_self]
    intro r hr
    obtain ⟨m, -, rfl⟩ := List.mem_map.mp hr
    simpa using event_recordOf_ne m
  -- nothing that stood there before is the end, nor is an action
  have hBefore : ∀ r ∈ s.journal.records ++ actions, ¬ r.IsFinal := by
    intro r hr hFinal
    rcases List.mem_append.mp hr with hr | hr
    · rw [h.ending r hr hFinal] at hOngoing
      cases hOngoing
    · exact not_isFinal_of_action (hNew.actions r hr) hFinal
  refine ⟨?_, ?_, ?_⟩
  · rw [hNew.records, hNew.milestones, hTurn.hasAnalytics_eq, List.filter_append,
      List.filter_append, hActions, h.matched, List.map_append, hSame, List.append_nil]
    cases s.hasAnalytics with
    | false => rfl
    | true =>
      simp only [if_true]
      rw [hTold]
  · rw [hNew.records, List.pairwise_append]
    refine ⟨?_, ?_, fun r hr _ _ => hBefore r hr⟩
    · exact List.pairwise_iff_forall_sublist.mpr fun {r _} hr =>
        hBefore r (hr.subset List.mem_cons_self)
    · cases s.hasAnalytics with
      | false => exact .nil
      | true =>
        simp only [if_true]
        rw [List.pairwise_map]
        exact hNew.behind.imp fun hEnd => by rw [isFinal_recordOf, hEnd]; decide
  · rw [hNew.records]
    intro r hr hFinal
    rcases List.mem_append.mp hr with hr | hr
    · exact absurd hFinal (hBefore r hr)
    · cases hWanted : s.hasAnalytics with
      | false => simp [hWanted] at hr
      | true =>
        simp only [hWanted, if_true] at hr
        obtain ⟨m, hm, rfl⟩ := List.mem_map.mp hr
        exact hNew.ending m hm (isFinal_recordOf.mp hFinal)

/-- A new session has no records. -/
theorem tracked_prepared (user : String) (ps : List Preparation) :
    Tracked (prepared user ps) := by
  obtain ⟨vars, components, hasAnalytics, opener, hNew⟩ := exists_prepared user ps
  rw [hNew]
  exact ⟨by simp, .nil, by simp⟩

theorem tracked_run (hSound : s.Sound) (hStory : Story s loaded entered) (h : Tracked s)
    (ops : List Operation) : Tracked (s.run ops) := by
  -- the story goes along, since it says that nothing was told while the flow is loading
  induction ops generalizing s loaded entered with
  | nil => exact h
  | cons op ops ih =>
    have hTurn := perform_turn hSound op
    have hFresh (hStage : s.stage = .loading) : s.journal.milestones = [] :=
      (hStory.silent (hStory.loaded_of_loading hStage)).2.2
    exact ih (sound_perform hSound op) (hStory.turn hTurn) (h.turn hFresh hTurn)

/-- No run decides anew whether records are wanted. -/
theorem hasAnalytics_run (hSound : s.Sound) (ops : List Operation) :
    (s.run ops).hasAnalytics = s.hasAnalytics := by
  induction ops generalizing s with
  | nil => rfl
  | cons op ops ih =>
    rw [run_cons, ih (sound_perform hSound op), (perform_turn hSound op).hasAnalytics_eq]

end Turns

/-! ## Both logs -/

/-- Take any run of a session, however it was prepared. It tells nothing if no operation loads the
flow. Else it tells the start, every screen that is entered, with its index and id, from the first
screen on and no index twice in a row, and then at most the end: the data of a completed flow, or
the id of the screen that was left. Once the flow is over nothing happens any more. If records are
wanted, those that are not of actions are the milestones' own, one for each in order; otherwise
there are none. Nothing is recorded behind the end, and a dispatch records its actions before the
one milestone that it may lead to. -/
theorem journal_run (user : String) (ps : List Preparation) (ops : List Operation) :
    let first := prepared user ps
    let s := first.run ops
    (first.hasLoaded ops = false → s.journal.milestones = []) ∧
    (first.hasLoaded ops = true → s.Lifecycle (first.entered ops)) ∧
    (∀ more, s.stage.isOver = true → s.run more = s) ∧
    ((s.journal.records.filter fun r => r.event ≠ Record.actionTriggered) =
      if first.hasAnalytics then s.journal.milestones.map s.recordOf else []) ∧
    (s.journal.records.Pairwise fun r _ => ¬ r.IsFinal) ∧
    ∀ id, ∃ actions told,
      (s.dispatch id).1.journal.milestones = s.journal.milestones ++ told ∧
      told.length ≤ 1 ∧
      (s.dispatch id).1.journal.records = s.journal.records ++ actions ++
        (if first.hasAnalytics then told.map s.recordOf else []) ∧
      ∀ r ∈ actions, r.event = Record.actionTriggered := by
  intro first s
  have hFirst : first.Sound := sound_prepared user ps
  have hSound : s.Sound := sound_run hFirst ops
  -- three invariants of the run: its stage, its milestones, and its records against them
  have hStory : Story s (first.hasLoaded ops) (first.entered ops) :=
    story_run hFirst (story_prepared user ps) ops
  have hTracked : Tracked s :=
    tracked_run hFirst (story_prepared user ps) (tracked_prepared user ps) ops
  have hAnalytics : s.hasAnalytics = first.hasAnalytics := hasAnalytics_run hFirst ops
  refine ⟨fun h => (hStory.silent h).2.2, hStory.told,
    fun more hOver => run_of_isOver hSound hOver more, ?_, hTracked.behind, fun id => ?_⟩
  · rw [← hAnalytics]
    exact hTracked.matched
  · have hTurn : Turn s false (s.dispatch id).1 := perform_turn hSound (.dispatch id)
    obtain ⟨actions, told, hNew, hFew⟩ := hTurn.appends
    obtain ⟨hLength, hSame⟩ := hFew rfl
    refine ⟨actions, told, hNew.milestones, hLength, ?_, hNew.actions⟩
    rw [hNew.records, hAnalytics, hSame]

-- going to the screen that is shown tells nothing
example : ((prepared "u" []).run [.enter [.ofElements "a" [], .ofElements "b" []], .back, .next,
    .goTo "b", .leave, .next]).journal.milestones = [.started 2, .screenViewed "a" 0,
      .screenViewed "b" 1, .abandoned (some "b")] := by rfl

end Session

end Onboarding
