import Onboarding.Proofs.Flow.Lifecycle

/-!
# Onboarding — operations that are refused

An operation can be refused: because the session is not in a stage that it fits,
because there is no such element, or because the screen is not the host's. What
is refused is refused before anything is touched, so the session is the same
afterwards, with its journal and all. A flow that could not be loaded is not
refused: it is over, and says so.

Once a flow is over, everything that can be refused is, and navigation goes
nowhere.

## Results

* `perform_of_error?` — an operation that is refused changes nothing.
* `error?_of_isOver` — what is refused once the flow is over.
* `refused_run` — both, for every session that can be reached.
-/

namespace Onboarding

namespace Stage

theorem index?_of_isOver {s : Stage} (h : s.isOver = true) : s.index? = none := by
  cases s <;> first | rfl | cases h

theorem ne_loading_of_isOver {s : Stage} (h : s.isOver = true) : s ≠ .loading := by
  rintro rfl
  cases h

end Stage

namespace Session

/-! ## Errors -/

/-- The error of an answer. -/
def errorOf {α : Type} : Except SessionError α → Option SessionError
  | .ok _ => none
  | .error e => some e

/-- The error that an operation gives, if it gives one. -/
def error? (s : Session) : Operation → Option SessionError
  | .start source => errorOf (s.start source).2
  | .enter screens => errorOf (s.enter screens).2
  | .enterText id text => errorOf (s.enterText id text).2
  | .dispatch id => errorOf (s.dispatch id).2
  | .completeCustom data => errorOf (s.completeCustom data).2
  | .next | .back | .skip | .leave | .goTo _ => none

namespace Operation

/-- Whether the operation only navigates, which never gives an error. -/
def isNavigation : Operation → Bool
  | next | back | skip | leave | goTo _ => true
  | _ => false

/-- Whether the operation is given the flow or a source of it. -/
def isLoad : Operation → Bool
  | start _ | enter _ => true
  | _ => false

end Operation

/-- Whether an error refuses an operation. A load that fails in another way has begun. -/
def Refuses (op : Operation) (e : SessionError) : Prop :=
  op.isLoad = true → ∃ stage, e = .notReady stage

section Refusals

variable {s : Session}

theorem errorOf_eq_some {α : Type} {answer : Except SessionError α} {e : SessionError} :
    errorOf answer = some e ↔ answer = .error e := by
  cases answer <;> simp [errorOf]

/-! ## What is refused -/

/-- Only a flow that is loading enters screens, and nothing comes of a refusal. -/
theorem enter_notReady {screens : List Screen} {stage : String}
    (h : (s.enter screens).2 = .error (.notReady stage)) :
    s.stage ≠ .loading ∧ (s.enter screens).1 = s := by
  -- a session that is still loading takes the screens or says that there is none
  rcases s.enter_cases screens with ⟨hStage, hEnter⟩ | ⟨-, hEnter | ⟨first, rest, -, hEnter⟩⟩
  · exact ⟨hStage, by rw [hEnter]⟩
  · rw [hEnter] at h
    cases h
  · rw [hEnter] at h
    cases h

/-- Nothing comes of a start that is refused. -/
theorem start_notReady {source : Source} {stage : String}
    (h : (s.start source).2 = .error (.notReady stage)) : (s.start source).1 = s := by
  unfold start at h ⊢
  by_cases hStage : s.stage = .loading
  · exfalso
    rw [if_neg (not_not_intro hStage)] at h
    cases hFetch : source.fetch with
    | error e =>
      rw [hFetch] at h
      cases h
    | ok flow =>
      -- choosing a variant leaves the stage, so the screens are entered
      obtain ⟨variant, queries, hChosen⟩ := s.exists_chooseVariant source flow
      simp only [hFetch] at h
      refine (enter_notReady h).1 ?_
      rw [hChosen]
      exact hStage
  · rw [if_pos hStage]

/-- Nothing comes of data that are refused. -/
theorem completeCustom_error {data : Table Json} {e : SessionError}
    (h : (s.completeCustom data).2 = .error e) : (s.completeCustom data).1 = s := by
  unfold completeCustom at h ⊢
  cases hScreen : s.shownScreen? with
  | none => rfl
  | some screen =>
    by_cases hCustom : screen.isCustom = true
    · simp only [hScreen, if_pos hCustom] at h
      cases h
    · simp only [if_neg hCustom]

/-- An operation that is refused changes nothing. -/
theorem perform_of_error? {op : Operation} {e : SessionError} (hError : s.error? op = some e)
    (hRefuses : Refuses op e) : s.perform op = s := by
  cases op with
  | start source =>
    obtain ⟨stage, rfl⟩ := hRefuses rfl
    exact start_notReady (errorOf_eq_some.mp hError)
  | enter screens =>
    obtain ⟨stage, rfl⟩ := hRefuses rfl
    exact (enter_notReady (errorOf_eq_some.mp hError)).2
  | enterText id text => exact enterText_error (errorOf_eq_some.mp hError)
  | dispatch id => exact dispatch_error (errorOf_eq_some.mp hError)
  | completeCustom data => exact completeCustom_error (errorOf_eq_some.mp hError)
  | _ => cases hError

/-! ## Flows that are over -/

/-- Once a flow is over, all that can be refused is, and the error names the stage. -/
theorem error?_of_isOver (hOver : s.stage.isOver = true) (op : Operation) :
    s.error? op = if op.isNavigation then none else some s.stageError := by
  have hLoading : s.stage ≠ .loading := Stage.ne_loading_of_isOver hOver
  -- no screen is shown, so there is no element and nothing to complete
  have hScreen : s.shownScreen? = none := shownScreen?_eq_none (Stage.index?_of_isOver hOver)
  have hElement (id : String) : s.currentElement id = .error s.stageError := by
    rw [currentElement, hScreen]
  cases op with
  | start source => rw [error?, start, if_pos hLoading]; rfl
  | enter screens => rw [error?, enter, if_pos hLoading]; rfl
  | enterText id text => rw [error?, enterText, hElement]; rfl
  | dispatch id => rw [error?, dispatch, hElement]; rfl
  | completeCustom data => rw [error?, completeCustom, hScreen]; rfl
  | _ => rfl

end Refusals

/-! ## Reachable sessions -/

/-- Take any session that can be reached. An operation that it refuses leaves it as it is, journal
included: whatever error the texts, the dispatches and the data of a custom screen meet with, and
a load for which the stage is not the right one. Once the flow is over, no operation changes the
session or tells anything, now or later in the run, and all but navigation say which stage the flow
is in. -/
theorem refused_run (user : String) (ps : List Preparation) (ops : List Operation) :
    let s := (prepared user ps).run ops
    (∀ op e, s.error? op = some e → Refuses op e → s.perform op = s) ∧
    (s.stage.isOver = true →
      (∀ more, s.run more = s) ∧
      ∀ op, s.perform op = s ∧
        s.error? op = if op.isNavigation then none else some (.notReady s.stage.text)) := by
  intro s
  have hSound : s.Sound := sound_run (sound_prepared user ps) ops
  refine ⟨fun op e hError hRefuses => perform_of_error? hError hRefuses, fun hOver => ?_⟩
  exact ⟨run_of_isOver hSound hOver,
    fun op => ⟨perform_of_isOver hSound hOver op, error?_of_isOver hOver op⟩⟩

-- the second load is refused, and so is a text for an element that is on no screen
example : let s := (prepared "u" []).run [.enter [.ofElements "a" []]]
    s.error? (.enter []) = some (.notReady "ready(0)") ∧
      s.error? (.enterText "x" "text") = some (.elementNotFound "x" "a") := by
  exact ⟨rfl, rfl⟩

end Session

end Onboarding
