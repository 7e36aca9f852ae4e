import Onboarding.Proofs.Condition.Ordering
import Onboarding.Proofs.Number.Nearest

/-!
# Onboarding — integers in conditions

A condition compares numbers as doubles. An integer of 64 bits need not be one, so
integers are compared as the doubles nearest to them (`Comparison.agree_int`,
`Comparison.order_int`). With that the order of two integers is never turned round,
and it is told whenever the two are doubles themselves or one of them has less than
54 bits. Neighbours beyond 2^53 may be taken for equal.

## Results

* `Condition.integers_compare` — every operator on integers, and when it is exact.
* `Condition.neighbours_agree` — two integers that are taken for equal.
-/

namespace Onboarding

namespace Comparison

/-- Integers are equal if their nearest doubles are. -/
theorem agree_int {a b : Int} :
    agree (some (.int a)) (some (.int b)) = true ↔ rounded a = rounded b :=
  Finite.same_ofInt

/-- Integers have the order of their nearest doubles. -/
theorem order_int (a b : Int) :
    order (.int a) (.int b) = compareOfLessAndEq (rounded a) (rounded b) :=
  Finite.compare_ofInt a b

theorem order_int_eq_gt {a b : Int} : order (.int a) (.int b) = .gt ↔ rounded b < rounded a := by
  rw [order_int, compareOfLessAndEq_eq_gt Int.le_antisymm Int.le_total Int.not_le]

theorem order_int_eq_lt {a b : Int} : order (.int a) (.int b) = .lt ↔ rounded a < rounded b := by
  rw [order_int, compareOfLessAndEq_eq_lt]

theorem isAmong_int {a : Int} {bs : List Int} :
    isAmong (some (.int a)) (some (.array (bs.map .int))) = true ↔
      ∃ b ∈ bs, rounded a = rounded b := by
  simp only [isAmong, List.any_map, List.any_eq_true, Function.comp_apply, agree_int]

end Comparison

namespace Condition

open Comparison

variable {vars : Variables} {x : String} {a b : Int}

/-- The variable `x` is compared with the integer `b` as the key of `a` is with that of `b`. -/
structure ComparesBy (key : Int → Int) (vars : Variables) (x : String) (a b : Int) : Prop where
  equals : (compare x "equals" (.int b)).holds vars = true ↔ key a = key b
  notEquals : (compare x "not_equals" (.int b)).holds vars = true ↔ key a ≠ key b
  greater : (compare x "greater_than" (.int b)).holds vars = true ↔ key b < key a
  less : (compare x "less_than" (.int b)).holds vars = true ↔ key a < key b

theorem comparesBy_rounded (hx : vars.get? x = some (.int a)) (b : Int) :
    ComparesBy rounded vars x a b := by
  have hEquals : (compare x "equals" (.int b)).holds vars = true ↔ rounded a = rounded b := by
    show agree (vars.get? x) (some (.int b)) = true ↔ _
    rw [hx, agree_int]
  refine ⟨hEquals, ?_, ?_, ?_⟩
  · show (!(compare x "equals" (.int b)).holds vars) = true ↔ _
    rw [Bool.not_eq_true', ← Bool.not_eq_true, hEquals]
  · rw [holds_greater hx, order_int_eq_gt]
    exact ⟨fun h => h.2.2, fun h => ⟨rfl, rfl, h⟩⟩
  · rw [holds_less hx, order_int_eq_lt]
    exact ⟨fun h => h.2.2, fun h => ⟨rfl, rfl, h⟩⟩

/-- Integers that lie apart are compared as such. -/
theorem ComparesBy.of_apart (h : ComparesBy rounded vars x a b) (hApart : Apart a b) :
    ComparesBy id vars x a b := by
  have ha := nearest_rounded a
  have hb := nearest_rounded b
  have hEq := ha.eq_iff hb hApart
  exact ⟨h.equals.trans hEq, h.notEquals.trans (not_congr hEq),
    h.greater.trans (hb.lt_iff ha hApart.symm), h.less.trans (ha.lt_iff hb hApart)⟩

/-- Take a variable that is bound to an integer. Compared with an integer, or looked for in a list
of integers, it is compared by the nearest doubles, whose order is never that of the integers turned
round. Where the two integers lie apart, the operators decide as for the integers themselves. -/
theorem integers_compare (hx : vars.get? x = some (.int a)) (b : Int) (bs : List Int) :
    (∀ n, Nearest n (rounded n)) ∧
    ComparesBy rounded vars x a b ∧
    ((compare x "in" (.array (bs.map .int))).holds vars = true ↔ ∃ c ∈ bs, rounded a = rounded c) ∧
    ((a ≤ b → rounded a ≤ rounded b) ∧ (b ≤ a → rounded b ≤ rounded a)) ∧
    (Apart a b → ComparesBy id vars x a b) ∧
    ((∀ c ∈ bs, Apart a c) →
      ((compare x "in" (.array (bs.map .int))).holds vars = true ↔ a ∈ bs)) := by
  have ha := nearest_rounded a
  have hb := nearest_rounded b
  have hCompares := comparesBy_rounded hx b
  have hAmong : (compare x "in" (.array (bs.map .int))).holds vars = true ↔
      ∃ c ∈ bs, rounded a = rounded c := by
    show isAmong (vars.get? x) (some (.array (bs.map .int))) = true ↔ _
    rw [hx, isAmong_int]
  refine ⟨nearest_rounded, hCompares, hAmong, ⟨ha.mono hb, hb.mono ha⟩, hCompares.of_apart, ?_⟩
  intro hApart
  rw [hAmong]
  constructor
  · rintro ⟨c, hc, hEq⟩
    rwa [(ha.eq_iff (nearest_rounded c) (hApart c hc)).mp hEq]
  · intro h
    exact ⟨a, h, rfl⟩

/-- The largest integer of 64 bits is no double, but a small one is told from it. -/
theorem integers_compare_largest :
    let vars : Variables := .ofList [("steps", .int 9007199254740991)]
    vars.get? "steps" = some (.int 9007199254740991) ∧
      Apart 9007199254740991 18446744073709551615 ∧
      (∀ c ∈ [9007199254740992, 18446744073709551615], Apart 9007199254740991 c) ∧
      (compare "steps" "less_than" (.int 18446744073709551615)).holds vars = true ∧
      ¬ (compare "steps" "in"
        (.array ([9007199254740992, 18446744073709551615].map .int))).holds vars = true := by
  intro vars
  have hx : vars.get? "steps" = some (.int 9007199254740991) := rfl
  have hSmall (b : Int) : Apart 9007199254740991 b := .inl (by decide)
  obtain ⟨-, -, -, -, hExact, hAmong⟩ := integers_compare hx 18446744073709551615
    [9007199254740992, 18446744073709551615]
  refine ⟨hx, hSmall _, fun c _ => hSmall c, ?_, ?_⟩
  · exact (hExact (hSmall _)).less.mpr (by decide)
  · rw [hAmong fun c _ => hSmall c]
    decide

/-- No operator tells 2^53 from the next integer. -/
theorem neighbours_agree :
    let vars : Variables :=
      .ofList [("low", .int 9007199254740992), ("high", .int 9007199254740993)]
    vars.get? "low" = some (.int 9007199254740992) ∧
      vars.get? "high" = some (.int 9007199254740993) ∧
      (compare "low" "equals" (.int 9007199254740993)).holds vars = true ∧
      (compare "low" "not_equals" (.int 9007199254740993)).holds vars = false ∧
      (compare "low" "less_than" (.int 9007199254740993)).holds vars = false ∧
      (compare "high" "greater_than" (.int 9007199254740992)).holds vars = false ∧
      (compare "low" "in" (.array [.int 9007199254740993])).holds vars = true := by
  intro vars
  refine ⟨rfl, rfl, ?_, ?_, ?_, ?_, ?_⟩ <;> decide +kernel

end Condition

end Onboarding
