import Onboarding.Proofs.Flow.Operation

/-!
# Onboarding — sessions that can be reached

Whatever a host asks of a session, and whatever its sources and links answer,
the session stays sound and its stage changes only as stages may. The data of
the completed flow is taken once; it stays what the session holds, since nothing
in a completed session changes any more.

## Results

* `Turn.canBecome` — an operation keeps the stage or changes it to one that may
  follow.
* `completion_of_sound` — a session holds the data of a completed flow exactly
  when it is completed.
* `reachable_run` — what holds of every session that can be reached.
-/

namespace Onboarding.Session

variable {s t : Session}

/-- An operation keeps the stage or changes it to one that may follow. -/
theorem Turn.canBecome {loaded : Bool} (hTurn : Turn s loaded t) :
    t.stage = s.stage ∨ s.stage.canBecome t.stage = true := by
  cases hTurn with
  | idle => exact .inl rfl
  | fail variant queries message hStage hScreens => exact .inr (by rw [hStage]; rfl)
  | begin variant queries hStage hVisible => exact .inr (by rw [hStage]; rfl)
  | act hStage hActs => exact .inl hActs.stage
  | move hStage hActs hMove =>
    -- from a screen a flow may get to every stage that a move leads to
    rw [hStage]
    cases hMove <;> exact .inr rfl

/-- The screen that is shown is the one at the index. -/
theorem shownScreen?_of_sound (hSound : s.Sound) {i : Nat} (hStage : s.stage = .ready i) :
    ∃ h : i < s.screens.length, s.shownScreen? = some s.screens[i] :=
  ⟨hSound.inRange i hStage, by
    rw [shownScreen?_eq hStage, List.getElem?_eq_getElem (hSound.inRange i hStage)]⟩

/-- A session holds the data of a completed flow exactly when it is completed, and then this is the
data as it stands. -/
theorem completion_of_sound (hSound : s.Sound) :
    (s.completion.isSome = true ↔ s.stage = .completed) ∧
      ∀ data, s.completion = some data → data = s.payload := by
  rw [hSound.completion]
  by_cases hStage : s.stage = .completed
  · rw [if_pos hStage]
    exact ⟨by simp [hStage], fun data hData => (Option.some.inj hData).symm⟩
  · rw [if_neg hStage]
    exact ⟨by simp [hStage], by simp⟩

/-- Take a session however it was prepared, after any operations. If its stage is at an index, there
is a screen at that index and it is the one that is shown. No screen of it is hidden. Whatever
operation follows, the stage stays or changes to one that it can become. The session holds the data
of the completed flow exactly if its stage is completed, and that data is what was collected with
the variables as they stand under their key. -/
theorem reachable_run (user : String) (ps : List Preparation) (ops : List Operation) :
    let s := (prepared user ps).run ops
    (∀ i, s.stage = .ready i →
      ∃ h : i < s.screens.length, s.shownScreen? = some s.screens[i]) ∧
    (∀ screen ∈ s.screens, screen.hidden = false) ∧
    (∀ op, (s.perform op).stage ≠ s.stage →
      s.stage.canBecome (s.perform op).stage = true) ∧
    (s.completion.isSome = true ↔ s.stage = .completed) ∧
    ∀ data, s.completion = some data →
      data = s.collected.insert "_variables" (Json.ofTable s.vars) := by
  intro s
  have hSound : s.Sound := sound_run (sound_prepared user ps) ops
  obtain ⟨hCompleted, hData⟩ := completion_of_sound hSound
  refine ⟨fun i hStage => shownScreen?_of_sound hSound hStage, hSound.visible, fun op hNe => ?_,
    hCompleted, hData⟩
  -- an operation is one turn, whose stages are those of the machine
  exact (perform_turn hSound op).canBecome.resolve_left hNe

end Onboarding.Session
