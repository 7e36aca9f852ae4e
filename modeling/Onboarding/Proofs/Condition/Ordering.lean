import Onboarding.Condition.Basic
import Onboarding.Proofs.Json.Written

/-!
# Onboarding — greater, less and equal

Two values are ordered as numbers if both read as numbers, and otherwise by the
texts they are shown as; they are equal by a relation of its own. Each of the two
orders turns round with its operands (`order_swap`), and both look at the same
two readings, so a value is never compared as a number one way and as text the
other way. Values that neither order tells apart therefore read alike
(`ReadAlike`).

Equal values have the same reading unless they are lists or objects: equality
goes into these and takes both zeros for one, while the texts of the zeros
differ.

## Results

* `Comparison.order_swap` — the order turns round with its operands.
* `Comparison.readAlike_of_order` — values that are not told apart read alike.
* `Comparison.order_of_agree` — equal values are not ordered.
* `Condition.ordering_coherent` — how the operators of order and equality agree.
-/

namespace Onboarding

/-! ## Two orders -/

namespace Finite

theorem compare_swap (x y : Finite) : y.compare x = (x.compare y).swap :=
  compareOfLessAndEq_eq_swap Int.le_antisymm Int.le_total Int.not_le

theorem compare_eq_eq {x y : Finite} : x.compare y = .eq ↔ x.same y = true := by
  unfold Finite.compare same
  rw [compareOfLessAndEq_eq_eq Int.le_refl Int.not_le, beq_iff_eq]

end Finite

namespace Comparison

theorem compareText_swap (s t : String) :
    compareOfLessAndEq t s = (compareOfLessAndEq s t).swap :=
  compareOfLessAndEq_eq_swap String.le_antisymm String.le_total String.not_le

theorem compareText_eq_eq {s t : String} : compareOfLessAndEq s t = .eq ↔ s = t :=
  compareOfLessAndEq_eq_eq String.le_refl String.not_le

/-! ## The order of values -/

/-- Turning round the operands turns round the order. -/
theorem order_swap (a b : Json) : order b a = (order a b).swap := by
  unfold order
  -- by which of the two read as numbers, the same question on both sides
  cases toNumber? a with
  | none =>
    cases toNumber? b with
    | none => exact compareText_swap _ _
    | some n => exact compareText_swap _ _
  | some m =>
    cases toNumber? b with
    | none => exact compareText_swap _ _
    | some n => exact Finite.compare_swap m n

/-- Two values read alike if they read as the same number or are shown as the same text. -/
def ReadAlike (a b : Json) : Prop :=
  (∃ m n, toNumber? a = some m ∧ toNumber? b = some n ∧ m.same n = true) ∨ a.display = b.display

/-- Values that are not told apart read alike. -/
theorem readAlike_of_order {a b : Json} (h : order a b = .eq) : ReadAlike a b := by
  unfold order at h
  split at h
  · next m n hm hn => exact .inl ⟨m, n, hm, hn, Finite.compare_eq_eq.mp h⟩
  · exact .inr (compareText_eq_eq.mp h)

/-- A value is not told apart from itself. -/
theorem order_self (a : Json) : order a a = .eq := by
  unfold order
  cases toNumber? a with
  | none => exact compareText_eq_eq.mpr rfl
  | some n => exact Finite.compare_eq_eq.mpr (beq_self_eq_true _)

/-- Outside of lists and objects, values that are the same are one value, except for numbers. -/
theorem eq_of_same {a b : Json} (ha : a.isContainer = false) (hNumber : ∀ n, a ≠ .number n)
    (h : a.same b = true) : a = b := by
  cases a with
  | null => cases b <;> simp [Json.same] at h ⊢
  | bool x => cases b <;> simp [Json.same] at h ⊢; exact h
  | number n => exact absurd rfl (hNumber n)
  | string s => cases b <;> simp [Json.same] at h ⊢; exact h
  | array xs => simp [Json.isContainer] at ha
  | object ms => simp [Json.isContainer] at ha

/-- Equal values that are no lists or objects are not told apart. -/
theorem order_of_agree {a b : Json} (ha : a.isContainer = false) (hNull : a.isNull = false)
    (h : agree (some a) (some b) = true) : order a b = .eq := by
  by_cases hNumber : ∃ n, a = .number n
  · obtain ⟨n, rfl⟩ := hNumber
    -- only a number equals a number, and then the doubles have one value
    cases b with
    | number m => exact Finite.compare_eq_eq.mpr h
    | null => simp [agree, present?] at h
    | bool x => simp [agree, present?, Json.same] at h
    | string s => simp [agree, present?, Json.same] at h
    | array xs => simp [agree, present?, Json.same] at h
    | object ms => simp [agree, present?, Json.same] at h
  · have hSame : a.same b = true := by
      cases a <;> cases b <;> simp_all [agree, present?, Json.isNull, Json.same]
    rw [eq_of_same ha (fun n hn => hNumber ⟨n, hn⟩) hSame]
    exact order_self b

/-- Two values are ordered unless one of them is `null`. -/
theorem order?_some (a b : Json) :
    order? (some a) (some b) = if a.isNull ∨ b.isNull then none else some (order a b) := by
  cases a <;> cases b <;> rfl

end Comparison

/-! ## Conditions -/

namespace Condition

open Comparison

variable {vars : Variables} {x : String} {a : Json}

theorem holds_greater (hx : vars.get? x = some a) (b : Json) :
    (compare x "greater_than" b).holds vars = true ↔
      a.isNull = false ∧ b.isNull = false ∧ order a b = .gt := by
  show (order? (vars.get? x) (some b) == some .gt) = true ↔ _
  rw [hx, order?_some, beq_iff_eq]
  cases a.isNull <;> cases b.isNull <;> simp

theorem holds_less (hx : vars.get? x = some a) (b : Json) :
    (compare x "less_than" b).holds vars = true ↔
      a.isNull = false ∧ b.isNull = false ∧ order a b = .lt := by
  show (order? (vars.get? x) (some b) == some .lt) = true ↔ _
  rw [hx, order?_some, beq_iff_eq]
  cases a.isNull <;> cases b.isNull <;> simp

/-- Take two values and variables that are bound to them. One is greater than the other exactly if
the other is less than the one; it is never both greater and less; if the two are equal and neither
is a list or an object, it is neither; and if it is neither, and neither value is `null`, then both
read as the same number or are shown as the same text. -/
theorem ordering_coherent {vars others : Variables} {x y : String} {a b : Json}
    (hx : vars.get? x = some a) (hy : others.get? y = some b) :
    ((compare x "greater_than" b).holds vars = true ↔
      (compare y "less_than" a).holds others = true) ∧
    ¬ ((compare x "greater_than" b).holds vars = true ∧
      (compare x "less_than" b).holds vars = true) ∧
    (a.isContainer = false → b.isContainer = false → (compare x "equals" b).holds vars = true →
      (compare x "greater_than" b).holds vars = false ∧
        (compare x "less_than" b).holds vars = false) ∧
    (a.isNull = false → b.isNull = false → (compare x "greater_than" b).holds vars = false →
      (compare x "less_than" b).holds vars = false → ReadAlike a b) := by
  -- both comparisons and both sides in terms of one `order a b`
  simp only [← Bool.not_eq_true, holds_greater hx, holds_less hx, holds_less hy, order_swap a b]
  refine ⟨?_, ?_, ?_, ?_⟩
  · cases order a b <;> simp [and_comm]
  · rintro ⟨⟨-, -, hGreater⟩, -, -, hLess⟩
    rw [hGreater] at hLess
    cases hLess
  · intro ha _ hEqual
    have hAgree : agree (some a) (some b) = true := by
      rw [← hx]
      exact hEqual
    constructor
    · rintro ⟨hNull, -, hGreater⟩
      rw [order_of_agree (by simpa using ha) (by simpa using hNull) hAgree] at hGreater
      cases hGreater
    · rintro ⟨hNull, -, hLess⟩
      rw [order_of_agree (by simpa using ha) (by simpa using hNull) hAgree] at hLess
      cases hLess
  · intro ha hb hGreater hLess
    -- neither before nor behind, so `order` calls the two equal
    refine readAlike_of_order ?_
    cases hOrder : order a b with
    | lt => exact absurd ⟨ha, hb, hOrder⟩ hLess
    | eq => rfl
    | gt => exact absurd ⟨ha, hb, hOrder⟩ hGreater

/-- A text that reads as the number it is compared with. -/
theorem ordering_coherent_mixed :
    let vars : Variables := .ofList [("goal", .int 10), ("score", .string " 1e1 ")]
    vars.get? "score" = some (.string " 1e1 ") ∧ vars.get? "goal" = some (.int 10) ∧
      (compare "score" "greater_than" (.int 10)).holds vars = false ∧
      (compare "score" "less_than" (.int 10)).holds vars = false ∧
      (compare "goal" "less_than" (.string " 1e1 ")).holds vars = false ∧
      ReadAlike (.string " 1e1 ") (.int 10) := by
  intro vars
  have hScore : vars.get? "score" = some (.string " 1e1 ") := rfl
  have hGoal : vars.get? "goal" = some (.int 10) := rfl
  have hGreater : (compare "score" "greater_than" (.int 10)).holds vars = false := by
    decide +kernel
  have hLess : (compare "score" "less_than" (.int 10)).holds vars = false := by decide +kernel
  obtain ⟨hTurn, -, -, hNeither⟩ := ordering_coherent hScore hGoal
  have hTurned : (compare "goal" "less_than" (.string " 1e1 ")).holds vars = false :=
    Bool.eq_false_iff.mpr fun hTrue => absurd (hTurn.mpr hTrue) (Bool.eq_false_iff.mp hGreater)
  exact ⟨hScore, hGoal, hGreater, hLess, hTurned, hNeither rfl rfl hGreater hLess⟩

end Condition

end Onboarding
