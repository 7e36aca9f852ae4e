import Onboarding.Proofs.Flow.Operation

/-!
# Onboarding — collected data under the variables

A custom screen's data goes to the collected data and to the variables at once,
and no operation takes a variable away again, although it may get another value.
So every key of the collected data is a variable, and what is laid over the
collected data hides all of it: rendering and destinations see the variables.

## Results

* `Variables.Shadows.overlay_eq` — variables over data that they hide.
* `Dispatch.run_of_shadows` — actions see nothing of data that the variables hide.
* `data_happen`, `shadows_perform` — what an operation does to both.
* `shadows_run` — the variables hide the collected data in every session that can
  be reached.
-/

namespace Onboarding

/-! ## Hidden data -/

namespace Variables

/-- Every key of the base is a variable. -/
def Shadows (vars base : Variables) : Prop :=
  ∀ key, base.contains key = true → vars.contains key = true

variable {vars base : Variables}

/-- Any variables hide data that are empty. -/
theorem shadows_empty (vars : Variables) : Shadows vars ∅ :=
  fun _ h => absurd h Bool.false_ne_true

/-- Data that are hidden stay so when a variable is set. -/
theorem Shadows.insert (h : Shadows vars base) (key : String) (value : Json) :
    Shadows (vars.insert key value) base := by
  intro other hOther
  rw [Table.contains_insert, h other hOther, Bool.or_true]

theorem Shadows.extend (h : Shadows vars base) (more : Variables) :
    Shadows (vars.extend more) base := by
  intro key hKey
  rw [Table.contains_extend, h key hKey, Bool.or_true]

/-- What is written to both is hidden as well. -/
theorem Shadows.extend_both (h : Shadows vars base) (more : Variables) :
    Shadows (vars.extend more) (base.extend more) := by
  intro key hKey
  rw [Table.contains_extend, Bool.or_eq_true] at hKey ⊢
  exact hKey.imp_right (h key)

/-- Laid over data that they hide, the variables are all there is. -/
theorem Shadows.overlay_eq (h : Shadows vars base) : vars.overlay base = vars := by
  refine Table.ext_get? fun name => ?_
  rw [get?_overlay]
  cases hValue : vars.get? name with
  | some v => rfl
  | none =>
    -- a key that is no variable is no key of the base
    cases hBase : base.get? name with
    | none => rfl
    | some v =>
      have hKey := h name (by rw [Table.contains, hBase]; rfl)
      rw [Table.contains, hValue] at hKey
      cases hKey

end Variables

open Variables (Shadows)

/-! ## Actions -/

namespace Dispatch

variable {base : Variables} {ctx : Context} {w : Workspace}

theorem shadows_flush (h : Shadows w.vars base) : Shadows w.flush.vars base :=
  h.extend (w.inputs.map .string)

/-- An action takes no variable away. -/
theorem shadows_effect (h : Shadows w.vars base) (a : Action) :
    Shadows (effect ctx w a).vars base := by
  cases a with
  | setVariable name value => exact shadows_flush (h.insert name value)
  | navigate destination => exact shadows_flush h
  | _ => exact h

/-- Neither do actions in turn, whose destinations see nothing of data that is hidden. -/
theorem run_of_shadows {as : List Action} {outcome : Outcome} (h : Shadows w.vars ctx.collected) :
    run ctx as w outcome = run { ctx with collected := ∅ } as w outcome ∧
      Shadows (run ctx as w outcome).1.vars ctx.collected := by
  induction as generalizing w outcome with
  | nil => exact ⟨rfl, h⟩
  | cons a rest ih =>
    -- a destination is resolved after its action's effect, which still hides the data
    have hNext : Shadows (effect ctx w a).vars ctx.collected := shadows_effect h a
    have hDeparture : departure? ctx (effect ctx w a) a =
        departure? { ctx with collected := ∅ } (effect ctx w a) a := by
      cases a with
      | navigate destination =>
        simp only [departure?, hNext.overlay_eq, (Variables.shadows_empty _).overlay_eq]
      | _ => rfl
    rw [run, run, hDeparture]
    exact ih hNext

end Dispatch

/-! ## Sessions -/

namespace Session

/-- The collected data and the variables. -/
def data (s : Session) : Table Json × Variables := (s.collected, s.vars)

section Data

variable (s : Session)

/-- Tracking a record touches no data. -/
theorem data_track (event : String) (properties : Json) :
    (s.track event properties).data = s.data := by
  unfold track
  split <;> rfl

theorem data_tell (m : Milestone) : (s.tell m).data = s.data := rfl

theorem data_enterScreen : s.enterScreen.data = s.data := by
  unfold enterScreen
  split
  · rfl
  · split
    · rfl
    · rw [data_tell, data_track]

theorem data_complete : s.complete.data = s.data := by
  unfold complete
  split
  · rfl
  · exact s.data_track _ _

/-- An event changes neither the collected data nor the variables. -/
theorem data_happen (event : StageEvent) : (s.happen event).data = s.data := by
  unfold happen
  dsimp only
  split
  · rfl
  · split
    · exact data_enterScreen _
    · exact data_complete _
    · exact data_track _ _ _
    · rfl
    · rfl

theorem data_enter (screens : List Screen) : (s.enter screens).1.data = s.data := by
  unfold enter
  dsimp only
  split
  · rfl
  · split
    · rfl
    · rw [data_enterScreen, data_tell, data_track]
      rfl

theorem data_start (source : Source) : (s.start source).1.data = s.data := by
  unfold start
  split
  · rfl
  · split
    · rfl
    · next flow _ =>
      obtain ⟨variant, queries, hChosen⟩ := s.exists_chooseVariant source flow
      simp only [hChosen]
      exact data_enter _ _

theorem data_follow (departure : Option Departure) : (s.follow departure).data = s.data := by
  unfold follow
  split <;> first | rfl | exact s.data_happen _

end Data

/-- The variables hide the collected data. -/
def Covered (s : Session) : Prop := Shadows s.vars s.collected

variable {s t : Session}

/-- A session that has the data of a covered one is covered. -/
theorem Covered.of_data_eq (h : s.Covered) (hSame : t.data = s.data) : t.Covered := by
  obtain ⟨hCollected, hVars⟩ := Prod.mk.inj hSame
  rw [Covered, hCollected, hVars]
  exact h

/-- Every operation leaves the collected data hidden. -/
theorem shadows_perform (h : s.Covered) (op : Operation) : (s.perform op).Covered := by
  cases op with
  | start source => exact h.of_data_eq (s.data_start source)
  | enter screens => exact h.of_data_eq (s.data_enter screens)
  | enterText id text =>
    refine h.of_data_eq ?_
    show (s.enterText id text).1.data = s.data
    unfold enterText
    split <;> rfl
  | dispatch id =>
    show (s.dispatch id).1.Covered
    unfold dispatch
    split
    · exact h
    · next e _ =>
      -- the actions of the element write variables, and nothing behind them does
      let ctx : Dispatch.Context :=
        { elementId := e.id, collected := s.collected, opener := s.opener }
      let w : Workspace := { vars := s.vars, selection := s.selection, inputs := s.inputs }
      have hVars : Shadows w.vars ctx.collected := h
      have hRun : Shadows (Dispatch.run ctx e.attributes.actionList w {}).1.vars s.collected :=
        (Dispatch.run_of_shadows hVars).2
      refine Covered.of_data_eq ?_ (data_follow _ _)
      rw [trackActions_eq]
      exact hRun
  | completeCustom data =>
    show (s.completeCustom data).1.Covered
    unfold completeCustom
    split
    · exact h
    · split
      · -- the only operation that collects data writes it to the variables too
        have hBoth : Covered { s with
            collected := s.collected.extend data, vars := s.vars.extend data } :=
          Shadows.extend_both h data
        exact hBoth.of_data_eq (data_happen _ _)
      · exact h
  | next => exact h.of_data_eq (s.data_happen _)
  | back => exact h.of_data_eq (s.data_happen _)
  | skip => exact h.of_data_eq (s.data_happen _)
  | leave => exact h.of_data_eq (s.data_happen _)
  | goTo id => exact h.of_data_eq (s.data_happen _)

/-- A run leaves the collected data hidden. -/
theorem covered_run (h : s.Covered) (ops : List Operation) : (s.run ops).Covered := by
  induction ops generalizing s with
  | nil => exact h
  | cons op ops ih => exact ih (shadows_perform h op)

/-- A new session has collected nothing yet. -/
theorem covered_prepared (user : String) (ps : List Preparation) : (prepared user ps).Covered := by
  obtain ⟨vars, components, hasAnalytics, opener, hNew⟩ := exists_prepared user ps
  rw [hNew]
  exact Variables.shadows_empty vars

/-- **The variables hide the collected data.** Take a session however it was prepared, after any
operations. Every key of the collected data is a variable, so the variables laid over the collected
data are the variables alone. The screen is rendered from them, and whatever element is acted on,
its actions do what they do with no data collected. -/
theorem shadows_run (user : String) (ps : List Preparation) (ops : List Operation) :
    let s := (prepared user ps).run ops
    (∀ key, s.collected.contains key = true → s.vars.contains key = true) ∧
    s.allVariables = s.vars ∧
    (s.render? = s.shownScreen?.map fun screen => screen.render
      { vars := s.vars, selection := s.selection, inputs := s.inputs
        components := s.components }) ∧
    ∀ e : Element,
      let w : Workspace := { vars := s.vars, selection := s.selection, inputs := s.inputs }
      e.dispatch s.collected s.opener w = e.dispatch ∅ s.opener w := by
  intro s
  have hCovered : s.Covered := covered_run (covered_prepared user ps) ops
  have hAll : s.allVariables = s.vars := hCovered.overlay_eq
  refine ⟨hCovered, hAll, ?_, fun e => ?_⟩
  · rw [render?, hAll]
  · exact (Dispatch.run_of_shadows (by exact hCovered)).1

end Session

end Onboarding
