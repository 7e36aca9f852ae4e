import Onboarding.Proofs.Flow.Footprint

/-!
# Onboarding — what the order of actions decides

All actions of an element are run in their order, each on what the ones before
it have left. Two of them matter more than the others: the first that asks for a
departure, as no later one is followed, and the first that writes the pending
inputs, as none are left behind it. A value set by that action comes under the
inputs, every value set later over them. The toggles and the links heed neither:
each toggle moves the selection, and each link is tried and noted with the answer
of the opener.

## Results

* `Dispatch.run_fst`, `Dispatch.records_run` — every action has its effect and
  its record.
* `Dispatch.firstDeparture_run` — the departure of the first action that departs.
* `Dispatch.settles_foldl` — the variables and the pending inputs afterwards.
* `Dispatch.selection_foldl`, `Dispatch.links_foldl` — the selection and the links
  afterwards.
* `Element.dispatch_in_order` — a dispatch, read off its list of actions.
-/

namespace Onboarding

/-! ## Kinds of actions -/

namespace Action

/-- The variable that an action sets, with its value. -/
def assignment? : Action → Option (String × Json)
  | setVariable name value => some (name, value)
  | _ => none

/-- The change of the selection that an action of the element makes. -/
def move? (elementId : String) : Action → Option SelectionMove
  | toggle group => some (.toggle elementId group)
  | _ => none

/-- The address of the link that an action opens. -/
def url? : Action → Option String
  | link url => some url
  | _ => none

/-- Whether an action writes the pending inputs. -/
def flushes : Action → Bool
  | setVariable .. | navigate _ => true
  | _ => false

/-- Whether an action asks for a departure. -/
def departs : Action → Bool
  | navigate _ | dismiss => true
  | _ => false

/-- What sets a variable also writes the pending inputs. -/
theorem assignment?_of_not_flushes {a : Action} (h : a.flushes = false) : a.assignment? = none := by
  cases a with
  | setVariable name value => cases h
  | _ => rfl

end Action

/-- The variables after assignments in turn. -/
def Variables.assign (vars : Variables) (assignments : List (String × Json)) : Variables :=
  assignments.foldl (fun vars a => vars.insert a.1 a.2) vars

namespace Dispatch

variable {ctx : Context} {a : Action} {as : List Action} {w : Workspace} {outcome : Outcome}

/-! ## Effects and records -/

/-- Every action has its effect, whatever was asked for before. -/
theorem run_fst (ctx : Context) (as : List Action) (w : Workspace) (outcome : Outcome) :
    (run ctx as w outcome).1 = as.foldl (effect ctx) w := by
  induction as generalizing w outcome with
  | nil => rfl
  | cons a rest ih => rw [run, ih, List.foldl_cons]

/-- Every action has its record. -/
theorem records_run (ctx : Context) (as : List Action) (w : Workspace) (outcome : Outcome) :
    (run ctx as w outcome).2.records = outcome.records ++ as.map (record ctx) := by
  induction as generalizing w outcome with
  | nil => exact (List.append_nil _).symm
  | cons a rest ih =>
    rw [run, ih, List.map_cons, List.append_assoc, List.singleton_append]

/-! ## The departure -/

/-- The departure that actions ask for: that of the first one which asks for any. A destination is
resolved over the variables that the actions before it leave, with the pending inputs written, and
these over the collected data; one without an applicable branch is the next screen. -/
inductive FirstDeparture (ctx : Context) (w : Workspace) :
    List Action → Option Departure → Prop where
  | stay {as : List Action} (hAll : ∀ a ∈ as, a.departs = false) : FirstDeparture ctx w as none
  | dismiss (front back : List Action) (hFront : ∀ a ∈ front, a.departs = false) :
    FirstDeparture ctx w (front ++ .dismiss :: back) (some .dismiss)
  | navigate (front : List Action) (destination : Destination) (back : List Action)
    (hFront : ∀ a ∈ front, a.departs = false) :
    FirstDeparture ctx w (front ++ .navigate destination :: back) (some (.go
      ((destination.resolve ((front.foldl (effect ctx) w).flush.vars.overlay ctx.collected)).getD
        .next)))

/-- In front of other actions, one that asks for no departure has its effect only. -/
theorem FirstDeparture.cons {d : Option Departure} (h : FirstDeparture ctx (effect ctx w a) as d)
    (hStays : a.departs = false) : FirstDeparture ctx w (a :: as) d := by
  cases h with
  | stay hAll => exact .stay (List.forall_mem_cons.mpr ⟨hStays, hAll⟩)
  | dismiss front back hFront =>
    exact .dismiss (a :: front) back (List.forall_mem_cons.mpr ⟨hStays, hFront⟩)
  | navigate front destination back hFront =>
    exact .navigate (a :: front) destination back (List.forall_mem_cons.mpr ⟨hStays, hFront⟩)

/-- A departure that was asked for stays. -/
theorem departure_run_of_some {d : Departure} (h : outcome.departure = some d) :
    (run ctx as w outcome).2.departure = some d := by
  induction as generalizing w outcome with
  | nil => exact h
  | cons a rest ih =>
    rw [run]
    refine ih ?_
    -- what the next action asks for comes second
    rw [h]
    rfl

/-- The departure of a run is that of the first action which asks for one. -/
theorem firstDeparture_run (h : outcome.departure = none) :
    FirstDeparture ctx w as (run ctx as w outcome).2.departure := by
  induction as generalizing w outcome with
  | nil =>
    rw [run, h]
    exact .stay fun _ ha => absurd ha List.not_mem_nil
  | cons a rest ih =>
    -- an action that departs settles it, behind any other the run is as before
    have hOther (hNone : departure? ctx (effect ctx w a) a = none) (hStays : a.departs = false) :
        FirstDeparture ctx w (a :: rest) (run ctx (a :: rest) w outcome).2.departure := by
      rw [run]
      exact (ih (by rw [h, hNone]; rfl)).cons hStays
    cases a with
    | navigate destination =>
      rw [run, departure_run_of_some (by rw [h, departure?]; rfl)]
      exact .navigate [] destination rest fun _ ha => absurd ha List.not_mem_nil
    | dismiss =>
      rw [run, departure_run_of_some (by rw [h, departure?]; rfl)]
      exact .dismiss [] rest fun _ ha => absurd ha List.not_mem_nil
    | _ => exact hOther rfl rfl

/-! ## Variables and pending inputs -/

/-- What becomes of variables and pending inputs. They stay if no action writes the inputs. Else the
value that the first such action may set is written, then every pending text, and then the values
that the later actions set, in their order; nothing is left pending. -/
inductive Settles (vars : Variables) (inputs : Inputs) :
    List Action → Variables → Inputs → Prop where
  | untouched {as : List Action} (hAll : ∀ a ∈ as, a.flushes = false) :
    Settles vars inputs as vars inputs
  | flushed (front : List Action) (a : Action) (back : List Action)
    (hFront : ∀ b ∈ front, b.flushes = false) (hFlushes : a.flushes = true) :
    Settles vars inputs (front ++ a :: back)
      ((inputs.writtenTo (vars.assign ((front ++ [a]).filterMap Action.assignment?))).assign
        (back.filterMap Action.assignment?)) ∅

/-- In front of other actions, one that does not write the pending inputs changes nothing here. -/
theorem Settles.cons {vars varsAfter : Variables} {inputs inputsAfter : Inputs}
    (h : Settles vars inputs as varsAfter inputsAfter) (hKeeps : a.flushes = false) :
    Settles vars inputs (a :: as) varsAfter inputsAfter := by
  cases h with
  | untouched hAll => exact .untouched (List.forall_mem_cons.mpr ⟨hKeeps, hAll⟩)
  | flushed front b back hFront hFlushes =>
    have hSets : (a :: front ++ [b]).filterMap Action.assignment? =
        (front ++ [b]).filterMap Action.assignment? :=
      List.filterMap_cons_none (Action.assignment?_of_not_flushes hKeeps)
    rw [← hSets]
    exact .flushed (a :: front) b back (List.forall_mem_cons.mpr ⟨hKeeps, hFront⟩) hFlushes

theorem effect_of_not_flushes (ctx : Context) (w : Workspace) (hKeeps : a.flushes = false) :
    (effect ctx w a).vars = w.vars ∧ (effect ctx w a).inputs = w.inputs := by
  cases a with
  | setVariable name value => cases hKeeps
  | navigate destination => cases hKeeps
  | _ => exact ⟨rfl, rfl⟩

/-- The pending inputs are written after the value that the action may set. -/
theorem effect_of_flushes (ctx : Context) (w : Workspace) (hFlushes : a.flushes = true) :
    (effect ctx w a).vars = w.inputs.writtenTo (w.vars.assign a.assignment?.toList) ∧
      (effect ctx w a).inputs = ∅ := by
  cases a with
  | setVariable name value => exact ⟨rfl, rfl⟩
  | navigate destination => exact ⟨rfl, rfl⟩
  | _ => cases hFlushes

/-- With nothing waiting, an action writes the value that it sets. -/
theorem effect_vars_of_empty (hWaiting : w.inputs = ∅) :
    (effect ctx w a).vars = w.vars.assign a.assignment?.toList := by
  cases hFlushes : a.flushes with
  | true =>
    rw [(effect_of_flushes ctx w hFlushes).1, hWaiting]
    rfl
  | false =>
    rw [(effect_of_not_flushes ctx w hFlushes).1, Action.assignment?_of_not_flushes hFlushes]
    rfl

/-- With nothing waiting, actions write the values that they set. -/
theorem foldl_effect_of_empty (ctx : Context) (as : List Action) (hWaiting : w.inputs = ∅) :
    (as.foldl (effect ctx) w).vars = w.vars.assign (as.filterMap Action.assignment?) ∧
      (as.foldl (effect ctx) w).inputs = ∅ := by
  induction as generalizing w with
  | nil => exact ⟨rfl, hWaiting⟩
  | cons a rest ih =>
    have hNext : (effect ctx w a).inputs = ∅ := effect_inputs hWaiting
    obtain ⟨hVars, hInputs⟩ := ih hNext
    rw [effect_vars_of_empty hWaiting] at hVars
    rw [List.foldl_cons, hVars, List.filterMap_cons]
    refine ⟨?_, hInputs⟩
    cases a.assignment? <;> rfl

/-- What becomes of variables and pending inputs in a run. -/
theorem settles_foldl (ctx : Context) (as : List Action) (w : Workspace) :
    Settles w.vars w.inputs as (as.foldl (effect ctx) w).vars (as.foldl (effect ctx) w).inputs := by
  induction as generalizing w with
  | nil => exact .untouched fun _ ha => absurd ha List.not_mem_nil
  | cons a rest ih =>
    rw [List.foldl_cons]
    cases hFlushes : a.flushes with
    | true =>
      -- behind this action nothing waits
      obtain ⟨hVars, hInputs⟩ := effect_of_flushes ctx w hFlushes
      obtain ⟨hVarsAfter, hInputsAfter⟩ := foldl_effect_of_empty ctx rest hInputs
      have hSets : [a].filterMap Action.assignment? = a.assignment?.toList := by
        rw [List.filterMap_cons]
        cases a.assignment? <;> rfl
      rw [hVarsAfter, hInputsAfter, hVars, ← hSets]
      exact .flushed [] a rest (fun _ hb => absurd hb List.not_mem_nil) hFlushes
    | false =>
      -- the other actions start with what this one has started with
      obtain ⟨hVars, hInputs⟩ := effect_of_not_flushes ctx w hFlushes
      have hSettles := ih (effect ctx w a)
      rw [hVars, hInputs] at hSettles
      exact hSettles.cons hFlushes

/-! ## Selection and links -/

/-- What is noted of a link: why it did not open, if the opener says so. -/
def attempt (opener : LinkHandler) (url : String) : LinkAttempt where
  url
  failure := match opener url with
    | .ok () => none
    | .error e => some e

/-- Only a toggle changes the selection. -/
theorem effect_selection (ctx : Context) (w : Workspace) (a : Action) :
    (effect ctx w a).selection =
      (a.move? ctx.elementId).toList.foldl Selection.apply w.selection := by
  cases a with
  | _ => rfl

/-- Only a link is tried, and it comes last. -/
theorem effect_links (ctx : Context) (w : Workspace) (a : Action) :
    (effect ctx w a).links = w.links ++ a.url?.toList.map (attempt ctx.opener) := by
  cases a with
  | link url => rfl
  | _ => exact (List.append_nil w.links).symm

/-- A run changes the selection by its toggles, in their order. -/
theorem selection_foldl (ctx : Context) (as : List Action) (w : Workspace) :
    (as.foldl (effect ctx) w).selection =
      (as.filterMap (Action.move? ctx.elementId)).foldl Selection.apply w.selection := by
  induction as generalizing w with
  | nil => rfl
  | cons a rest ih =>
    rw [List.foldl_cons, ih, effect_selection, List.filterMap_cons]
    cases a.move? ctx.elementId <;> rfl

/-- A run tries its links in their order, behind those that were tried before. -/
theorem links_foldl (ctx : Context) (as : List Action) (w : Workspace) :
    (as.foldl (effect ctx) w).links =
      w.links ++ (as.filterMap Action.url?).map (attempt ctx.opener) := by
  induction as generalizing w with
  | nil => exact (List.append_nil w.links).symm
  | cons a rest ih =>
    rw [List.foldl_cons, ih, effect_links, List.append_assoc, ← List.map_append,
      List.filterMap_cons]
    cases a.url? <;> rfl

/-! ## The opener -/

/-- With another opener and other links an action differs in its links only. -/
theorem effect_opener (ctx : Context) (w : Workspace) (a : Action) (other : LinkHandler)
    (links : List LinkAttempt) : ∃ tried,
    effect { ctx with opener := other } { w with links := links } a =
      { effect ctx w a with links := tried } := by
  cases a with
  | link url => exact ⟨links ++ [⟨url, _⟩], rfl⟩
  | _ => exact ⟨links, rfl⟩

theorem departure?_opener (other : LinkHandler) (links : List LinkAttempt) :
    departure? { ctx with opener := other } { w with links := links } a = departure? ctx w a := by
  cases a with
  | _ => rfl

/-- With another opener and other links a run differs in its links only. -/
theorem run_opener (ctx : Context) (as : List Action) (w : Workspace) (outcome : Outcome)
    (other : LinkHandler) (links : List LinkAttempt) : ∃ tried,
    run { ctx with opener := other } as { w with links := links } outcome =
      ({ (run ctx as w outcome).1 with links := tried }, (run ctx as w outcome).2) := by
  induction as generalizing w links outcome with
  | nil => exact ⟨links, rfl⟩
  | cons a rest ih =>
    obtain ⟨tried, hEffect⟩ := effect_opener ctx w a other links
    rw [run, run, hEffect, departure?_opener]
    exact ih _ _ tried

end Dispatch

namespace Element

open Dispatch (Context effect record attempt FirstDeparture Settles)

/-- **What the order of actions decides.** Take any element, any workspace, any collected data and
any opener of links. Of the single action and the listed ones behind it each has its record and its
effect on what those before it leave, in this order, whether or not a departure has been asked for.
So the selection moves by every toggle, and every link is tried and noted with the opener's answer,
behind the links tried before. The departure is that of the first action which asks for one.
Variables and pending inputs stay if no action writes the inputs; else they come from the first that
does and the values set later. Another opener makes no difference but in the links that are said to
have failed. -/
theorem dispatch_in_order (e : Element) (collected : Table Json) (opener : LinkHandler)
    (w : Workspace) :
    let ctx : Context := { elementId := e.id, collected, opener }
    let actions := e.attributes.action.toList ++ e.attributes.actions.getD []
    let after := e.dispatch collected opener w
    after.2.records = actions.map (record ctx) ∧
    after.1 = actions.foldl (effect ctx) w ∧
    after.1.selection = (actions.filterMap (Action.move? e.id)).foldl Selection.apply w.selection ∧
    after.1.links = w.links ++ (actions.filterMap Action.url?).map (attempt opener) ∧
    FirstDeparture ctx w actions after.2.departure ∧
    Settles w.vars w.inputs actions after.1.vars after.1.inputs ∧
    ∀ other, let again := e.dispatch collected other w
      again.2 = after.2 ∧ again.1.vars = after.1.vars ∧
        again.1.selection = after.1.selection ∧ again.1.inputs = after.1.inputs := by
  intro ctx actions after
  have hWorkspace : after.1 = actions.foldl (effect ctx) w := Dispatch.run_fst ctx actions w {}
  have hRecords : after.2.records = [] ++ actions.map (record ctx) :=
    Dispatch.records_run ctx actions w {}
  -- every part is a fact of the fold, except the departure, which the run itself notes
  refine ⟨hRecords, hWorkspace, ?selection, ?links, Dispatch.firstDeparture_run rfl, ?settled,
    fun other => ?opener⟩
  case selection =>
    rw [hWorkspace]
    exact Dispatch.selection_foldl ctx actions w
  case links =>
    rw [hWorkspace]
    exact Dispatch.links_foldl ctx actions w
  case settled =>
    rw [hWorkspace]
    exact Dispatch.settles_foldl ctx actions w
  case opener =>
    -- another opener changes the attempts noted and nothing else of the workspace
    obtain ⟨tried, hRun⟩ := Dispatch.run_opener ctx actions w {} other w.links
    have hAgain : e.dispatch collected other w = ({ after.1 with links := tried }, after.2) := hRun
    dsimp only
    rw [hAgain]
    exact ⟨rfl, rfl, rfl, rfl⟩

/-- A text that waits for a variable comes over the value that is set first and under the one that
is set later, and the destination between them sees it; dismissing comes too late. What is toggled
and opened behind the departure is not lost. -/
example :
    let go := Destination.branch (.compare "x" "equals" (.string "typed")) (.literal "c") none
    let e := ((plain "go" .text).setAction (.setVariable "x" (.string "set"))).setActions
      [.navigate go, .dismiss, .setVariable "x" (.string "later"), .toggle (some "g"), .link "u"]
    let w : Workspace := { vars := ∅, selection := {}, inputs := .ofList [("x", "typed")] }
    let after := e.dispatch ∅ (fun url => .error (.linkFailed url "offline")) w
    after.2.departure = some (.go (.screen "c")) ∧ after.1.inputs.isEmpty = true ∧
      ((after.1.vars.get? "x").map Json.display) = some "later" ∧
      after.1.selection.chosen? "g" = some "go" ∧
      after.1.links = [⟨"u", some (.linkFailed "u" "offline")⟩] := by
  decide

end Element

end Onboarding
