import Onboarding.Dispatch
import Onboarding.Proofs.Element.References
import Onboarding.Proofs.Variables.Agreement

/-!
# Onboarding — what a dispatch reads and writes

While no input waits, the actions of an element write the variables that they
set and read the variables that the conditions in their destinations name. The
forest refers to all that is written. It does not refer to all that is read: the
collector passes over destinations, so a variable that only decides where an
action leads is missing from what it collects.

## Results

* `get?_run_vars` — a run writes only what its actions set.
* `Alike.run` — a run reads only what its destinations name.
* `dispatch_congr_variablesOf` — a dispatch writes only what the forest refers
  to, and reads nothing else if its destinations do not.
* `dispatch_ne_of_destination` — a destination that reads a variable which is not
  collected.
-/

namespace Onboarding

open Variables (AgreeOn)

/-- The variables that the conditions in an action's destination name. -/
def Action.variablesRead : Action → List String
  | navigate destination => destination.variableNames
  | _ => []

/-- The variables that the destinations of an element's actions name. -/
def Attributes.variablesRead (a : Attributes) : List String :=
  a.actionList.flatMap Action.variablesRead

/-- An element refers to the variables that its actions set. -/
theorem Attributes.variablesSet_subset_references (a : Attributes) :
    a.actionList.filterMap Action.variableSet? ⊆ a.references := by
  intro name hName
  rw [references]
  exact List.mem_append_left _ (List.mem_append_right _ hName)

/-- With nothing waiting there is nothing to write. -/
theorem Workspace.flush_eq {w : Workspace} (hWaiting : w.inputs = ∅) : w.flush = w := by
  obtain ⟨vars, selection, inputs, links⟩ := w
  subst hWaiting
  rfl

namespace Dispatch

variable {ctx : Context} {a : Action} {as : List Action} {w u : Workspace} {outcome : Outcome}

/-! ## Writing -/

/-- Actions leave nothing waiting. -/
theorem effect_inputs (hWaiting : w.inputs = ∅) : (effect ctx w a).inputs = ∅ := by
  cases a with
  | setVariable name value => rfl
  | navigate destination => rfl
  | _ => exact hWaiting

/-- An action writes only the variable that it sets. -/
theorem get?_effect_vars (hWaiting : w.inputs = ∅) {name : String}
    (hOther : a.variableSet? ≠ some name) :
    (effect ctx w a).vars.get? name = w.vars.get? name := by
  cases a with
  | setVariable set value =>
    have hName : name ≠ set := fun h => hOther (congrArg some h.symm)
    rw [effect, Workspace.flush_eq (by exact hWaiting)]
    exact (Table.get?_insert w.vars set name value).trans (if_neg hName)
  | navigate destination => rw [effect, Workspace.flush_eq hWaiting]
  | _ => rfl

/-- A run writes only the variables that its actions set. -/
theorem get?_run_vars (hWaiting : w.inputs = ∅) {name : String}
    (hOther : name ∉ as.filterMap Action.variableSet?) :
    (run ctx as w outcome).1.vars.get? name = w.vars.get? name := by
  induction as generalizing w outcome with
  | nil => rfl
  | cons a rest ih =>
    have hHere : a.variableSet? ≠ some name := fun h =>
      hOther (List.mem_filterMap.mpr ⟨a, List.mem_cons_self, h⟩)
    have hRest : name ∉ rest.filterMap Action.variableSet? := fun h => by
      obtain ⟨b, hb, hSet⟩ := List.mem_filterMap.mp h
      exact hOther (List.mem_filterMap.mpr ⟨b, List.mem_cons_of_mem _ hb, hSet⟩)
    rw [run, ih (effect_inputs hWaiting) hRest, get?_effect_vars hWaiting hHere]

/-! ## Reading -/

/-- With nothing waiting, two workspaces differ at most in variables, and not in these. -/
structure Alike (names : List String) (w u : Workspace) : Prop where
  vars : AgreeOn names w.vars u.vars
  selection : u.selection = w.selection
  links : u.links = w.links
  waiting : w.inputs = ∅
  waitingOther : u.inputs = ∅

variable {names : List String}

/-- An action does the same to both. -/
theorem Alike.effect (h : Alike names w u) (ctx : Context) (a : Action) :
    Alike names (effect ctx w a) (effect ctx u a) := by
  refine ⟨?_, ?_, ?_, effect_inputs h.waiting, effect_inputs h.waitingOther⟩
  · cases a with
    | setVariable name value =>
      -- nothing waits on either side, so the flush before the action writes nothing
      rw [Dispatch.effect, Dispatch.effect, Workspace.flush_eq (by exact h.waiting),
        Workspace.flush_eq (by exact h.waitingOther)]
      exact h.vars.insert name value
    | navigate destination =>
      rw [Dispatch.effect, Dispatch.effect, Workspace.flush_eq h.waiting,
        Workspace.flush_eq h.waitingOther]
      exact h.vars
    | _ => exact h.vars
  · cases a with
    | toggle group => exact congrArg (·.apply (.toggle ctx.elementId group)) h.selection
    | _ => exact h.selection
  · cases a with
    | link url => exact congrArg (· ++ _) h.links
    | _ => exact h.links

/-- Where an action leads depends on the variables that its destination names. -/
theorem Alike.departure? (h : Alike names w u) (hRead : a.variablesRead ⊆ names) :
    departure? ctx u a = departure? ctx w a := by
  cases a with
  | navigate destination =>
    have hAgree := (h.vars.mono hRead).overlay ctx.collected
    rw [Dispatch.departure?, Dispatch.departure?, Destination.resolve_congr hAgree]
  | _ => rfl

/-- A run does the same to both and has the same outcome, if its destinations name no other
variables. -/
theorem Alike.run (h : Alike names w u) (hRead : as.flatMap Action.variablesRead ⊆ names) :
    Alike names (run ctx as w outcome).1 (run ctx as u outcome).1 ∧
      (run ctx as u outcome).2 = (run ctx as w outcome).2 := by
  induction as generalizing w u outcome with
  | nil => exact ⟨h, rfl⟩
  | cons a rest ih =>
    rw [List.flatMap_cons, List.append_subset] at hRead
    have hNext := h.effect ctx a
    -- the departure is resolved after the effect, over variables that agree again
    rw [Dispatch.run, Dispatch.run, hNext.departure? hRead.1]
    exact ih hNext hRead.2

end Dispatch

namespace Element

/-- **A dispatch writes only what the forest refers to**, and reads nothing else, unless its
destinations do. Take any element of any forest, any collected data and any workspace in which no
input waits. Over other variables that agree with those of the workspace on what the forest refers
to, and on what the conditions in the destinations of the element's actions name, the same actions
are recorded, the same departure is asked for, the same is selected and the same links are tried,
and the variables agree on what the forest refers to afterwards. A variable that has changed is one
that the forest refers to, whatever the destinations name. -/
theorem dispatch_congr_variablesOf {roots : List Element} {e : Element}
    (hMem : e ∈ documents roots) (collected : Table Json) (opener : LinkHandler) {w : Workspace}
    (hWaiting : w.inputs = ∅) :
    let after := e.dispatch collected opener w
    (∀ others, AgreeOn (variablesOf roots).keys w.vars others →
      AgreeOn e.attributes.variablesRead w.vars others →
      let again := e.dispatch collected opener { w with vars := others }
      again.2.records = after.2.records ∧ again.2.departure = after.2.departure ∧
        again.1.selection = after.1.selection ∧ again.1.links = after.1.links ∧
        AgreeOn (variablesOf roots).keys after.1.vars again.1.vars) ∧
    ∀ name, after.1.vars.get? name ≠ w.vars.get? name → name ∈ (variablesOf roots).keys := by
  intro after
  constructor
  · intro others hAgree hRead again
    have hAlike : Dispatch.Alike ((variablesOf roots).keys ++ e.attributes.variablesRead) w
        { w with vars := others } :=
      ⟨Variables.agreeOn_append.mpr ⟨hAgree, hRead⟩, rfl, rfl, hWaiting, hWaiting⟩
    obtain ⟨hAfter, hOutcome⟩ : Dispatch.Alike _ after.1 again.1 ∧ again.2 = after.2 :=
      hAlike.run (List.subset_append_right _ _)
    exact ⟨congrArg Outcome.records hOutcome, congrArg Outcome.departure hOutcome,
      hAfter.selection, hAfter.links, (Variables.agreeOn_append.mp hAfter.vars).1⟩
  · intro name hChanged
    -- what is not collected is not set by an action of the element, and so is not written
    by_contra hName
    refine hChanged (Dispatch.get?_run_vars hWaiting fun hSet => hName ?_)
    exact mem_keys_variablesOf.mpr
      ⟨e, hMem, e.attributes.variablesSet_subset_references hSet⟩

/-- A button in a box sets a variable and goes where its new value leads, over variables with and
without one that the forest does not refer to. -/
theorem dispatch_congr_variablesOf_button :
    let e := node { id := "go", kind := .text, actions := some [.setVariable "x" (.string "yes"),
      .navigate (.branch (.compare "x" "equals" (.string "yes")) (.literal "c") none)] } []
    let roots := [node { id := "box", kind := .vstack } [e]]
    let w : Workspace := { vars := .ofList [("token", .int 7)], selection := {}, inputs := ∅ }
    let after := e.dispatch ∅ (fun _ => .ok ()) w
    let again := e.dispatch ∅ (fun _ => .ok ()) { w with vars := ∅ }
    (e ∈ documents roots ∧ w.inputs = ∅ ∧ AgreeOn (variablesOf roots).keys w.vars ∅ ∧
      AgreeOn e.attributes.variablesRead w.vars ∅) ∧
    again.2.departure = after.2.departure ∧ after.2.departure = some (.go (.screen "c")) ∧
      (after.1.vars.get? "x" ≠ w.vars.get? "x" → "x" ∈ (variablesOf roots).keys) := by
  intro e roots w after again
  have hMem : e ∈ documents roots := List.mem_cons_of_mem _ List.mem_cons_self
  have hAgree : AgreeOn (variablesOf roots).keys w.vars ∅ := by
    have hKeys : (variablesOf roots).keys = ["x"] := by decide
    rw [hKeys]
    exact List.forall_mem_cons.mpr ⟨rfl, fun _ h => absurd h List.not_mem_nil⟩
  have hRead : AgreeOn e.attributes.variablesRead w.vars ∅ :=
    List.forall_mem_cons.mpr ⟨rfl, fun _ h => absurd h List.not_mem_nil⟩
  obtain ⟨hSame, hWritten⟩ := dispatch_congr_variablesOf hMem ∅ (fun _ => .ok ()) (w := w) rfl
  obtain ⟨-, hDeparture, -⟩ := hSame ∅ hAgree hRead
  exact ⟨⟨hMem, rfl, hAgree, hRead⟩, hDeparture, by decide, hWritten "x"⟩

/-- A destination reads a variable that the forest is not said to refer to: over two stores that
agree on all that is collected, the same button leads to different screens. -/
theorem dispatch_ne_of_destination :
    let e := node { id := "go", kind := .text, action := some (.navigate (.branch
      (.compare "x" "equals" (.string "yes")) (.literal "c") (some (.literal "d")))) } []
    let w : Workspace := { vars := .ofList [("x", .string "yes")], selection := {}, inputs := ∅ }
    e ∈ documents [e] ∧ w.inputs = ∅ ∧ AgreeOn (variablesOf [e]).keys w.vars ∅ ∧
      (e.dispatch ∅ (fun _ => .ok ()) w).2.departure = some (.go (.screen "c")) ∧
      (e.dispatch ∅ (fun _ => .ok ()) { w with vars := ∅ }).2.departure =
        some (.go (.screen "d")) := by
  intro e w
  have hKeys : (variablesOf [e]).keys = [] := by decide
  refine ⟨List.mem_cons_self, rfl, ?_, by decide, by decide⟩
  rw [hKeys]
  exact fun _ h => absurd h List.not_mem_nil

end Element

end Onboarding
