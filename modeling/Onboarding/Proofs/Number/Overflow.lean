import Onboarding.Number.Decimal
import Onboarding.Proofs.Number.Nearest

/-!
# Onboarding — overflow

A quotient is too large for a double from halfway between the greatest double and
2^1024 on; the tie goes up, because the last bit of the greatest double is odd
(`Units.round_lt_limit_iff`). For a decimal this is a comparison of natural numbers
(`Decimal.Overflows`), and the estimates by which huge exponents are told at once
never decide otherwise (`Decimal.toUnits?_eq`). No integer of 64 bits overflows.

## Results

* `Units.round_lt_limit_iff` — which quotients are rounded below the limit.
* `Decimal.toUnits?_eq` — the magnitude of a decimal is its rounded quotient.
* `Decimal.toUnits?_eq_none_iff` — which decimals overflow.
* `Finite.units_ofInt_lt` — integers of 64 bits stay below the limit.
-/

namespace Onboarding

/-! ## Quotients -/

namespace Units

/-- Below an even number: from half a divisor below it on the quotient is rounded up to it. -/
theorem roundQuotient_lt_iff {den : Nat} (hDen : 0 < den) (num : Nat) {k : Nat}
    (hEven : k % 2 = 0) : roundQuotient num den < k ↔ 2 * num + den < 2 * (k * den) := by
  have hSplit := Nat.div_add_mod' num den
  have hRest := Nat.mod_lt num hDen
  have hSucc : (num / den + 1) * den = num / den * den + den := Nat.succ_mul _ _
  have hCases := roundQuotient_cases num den
  -- only just below the even number does the rest of the division decide
  rcases Nat.lt_trichotomy (num / den + 1) k with hBelow | rfl | hAbove
  · have hMul := Nat.mul_le_mul_right den hBelow
    rw [Nat.succ_mul, hSucc] at hMul
    omega
  · rw [hSucc]
    omega
  · have hMul := Nat.mul_le_mul_right den (Nat.le_of_lt_succ hAbove)
    omega

/-- A number with few bits has few in excess. -/
theorem excessBits_le {n k : Nat} (h : n < 2 ^ k) : excessBits n ≤ k - 53 := by
  rcases Nat.eq_zero_or_pos (excessBits n) with hFits | hPos
  · omega
  · have hLt := Nat.lt_of_le_of_lt (two_pow_le hPos) h
    have hExponent := (Nat.pow_lt_pow_iff_right (by decide)).mp hLt
    omega

/-- A number with many bits has many in excess. -/
theorem lt_excessBits {n k : Nat} (h : 2 ^ k ≤ n) : k < 53 + excessBits n :=
  (Nat.pow_lt_pow_iff_right (by decide)).mp (Nat.lt_of_le_of_lt h (lt_two_pow n))

theorem round_eq (num den : Nat) : round num den =
    roundQuotient num (den * 2 ^ excessBits (num / den)) * 2 ^ excessBits (num / den) := rfl

/-- The bits that are kept of a quotient are those of its whole part. -/
theorem div_excess (num den : Nat) :
    num / (den * 2 ^ excessBits (num / den)) = num / den / 2 ^ excessBits (num / den) :=
  (Nat.div_div_eq_div_mul ..).symm

/-- A rounded quotient is at most the next power of two. -/
theorem round_le (num den : Nat) : round num den ≤ 2 ^ (53 + excessBits (num / den)) := by
  have hQuotient : num / (den * 2 ^ excessBits (num / den)) < 2 ^ 53 := by
    rw [div_excess, Nat.div_lt_iff_lt_mul (Nat.two_pow_pos _), ← Nat.pow_add]
    exact lt_two_pow _
  have hCases := roundQuotient_cases num (den * 2 ^ excessBits (num / den))
  rw [round_eq, Nat.pow_add]
  exact Nat.mul_le_mul_right _ (by omega)

/-- A rounded quotient with bits in excess has not lost its first bit. -/
theorem le_round {num den : Nat} (h : 0 < excessBits (num / den)) :
    2 ^ (52 + excessBits (num / den)) ≤ round num den := by
  have hQuotient : 2 ^ 52 ≤ num / (den * 2 ^ excessBits (num / den)) := by
    rw [div_excess, Nat.le_div_iff_mul_le (Nat.two_pow_pos _), ← Nat.pow_add]
    exact two_pow_le h
  have hCases := roundQuotient_cases num (den * 2 ^ excessBits (num / den))
  rw [round_eq, Nat.pow_add]
  exact Nat.mul_le_mul_right _ (by omega)

/-- A quotient is rounded below a power of two exactly if it lies below the middle between that and
the greatest double before it. -/
theorem round_lt_two_pow_iff {den : Nat} (hDen : 0 < den) (num f : Nat) :
    round num den < 2 ^ (54 + f) ↔ num < (2 ^ 54 - 1) * (2 ^ f * den) := by
  have hUnit : 0 < 2 ^ f * den := Nat.mul_pos (Nat.two_pow_pos f) hDen
  rcases Nat.lt_or_ge (num / den) (2 ^ (53 + f)) with hSmall | hLarge
  · -- the quotient is smaller by a power of two
    have hExcess := excessBits_le hSmall
    have hRound : round num den < 2 ^ (54 + f) :=
      Nat.lt_of_le_of_lt (round_le num den) (Nat.pow_lt_pow_right (by decide) (by omega))
    rw [Nat.div_lt_iff_lt_mul hDen, Nat.pow_add, Nat.mul_assoc] at hSmall
    omega
  · rcases Nat.lt_or_ge (num / den) (2 ^ (54 + f)) with hBelow | hAbove
    · -- the last place that is kept is that of `2 ^ (f + 1)`
      have hLeast := lt_excessBits hLarge
      have hMost := excessBits_le hBelow
      have hLast : excessBits (num / den) = f + 1 := by omega
      have hStep : den * 2 ^ (f + 1) = 2 * (2 ^ f * den) := by
        rw [Nat.pow_succ, Nat.mul_comm den, Nat.mul_right_comm, Nat.mul_comm]
      have hPower : 2 ^ (54 + f) = 2 ^ 53 * 2 ^ (f + 1) := by
        rw [← Nat.pow_add]
        congr 1
        omega
      rw [round_eq, hLast, hPower, Nat.mul_lt_mul_right (Nat.two_pow_pos _),
        roundQuotient_lt_iff (by omega) num (by decide), hStep]
      omega
    · have hExcess := lt_excessBits hAbove
      have hRound : 2 ^ (54 + f) ≤ round num den :=
        Nat.le_trans (Nat.pow_le_pow_right (by decide) (by omega)) (le_round (by omega))
      rw [ge_iff_le, Nat.le_div_iff_mul_le hDen, Nat.pow_add, Nat.mul_assoc] at hAbove
      omega

/-- The same for quotients of multiples of `2 ^ g`. -/
theorem round_mul_two_pow_lt_iff {den : Nat} (hDen : 0 < den) (num f g : Nat) :
    round (num * 2 ^ g) den < 2 ^ (54 + f + g) ↔ num < (2 ^ (54 + f) - 2 ^ f) * den := by
  have hOdd : 2 ^ (54 + f) - 2 ^ f = (2 ^ 54 - 1) * 2 ^ f := by
    rw [Nat.pow_add, Nat.sub_mul, Nat.one_mul]
  have hScale : (2 ^ 54 - 1) * (2 ^ (f + g) * den) = (2 ^ 54 - 1) * 2 ^ f * den * 2 ^ g := by
    rw [Nat.pow_add]
    ac_rfl
  rw [Nat.add_assoc, round_lt_two_pow_iff hDen, hScale, hOdd,
    Nat.mul_lt_mul_right (Nat.two_pow_pos g)]

/-- The number halfway between the greatest double and 2^1024. -/
def edge : Nat := Nat.pow 2 1024 - Nat.pow 2 970

/-- A quotient overflows from the edge on. -/
theorem round_lt_limit_iff {den : Nat} (hDen : 0 < den) (num : Nat) :
    round (num * one) den < limit ↔ num < edge * den := by
  -- the powers are too large to be worked out
  have hPowers : ∀ f g a b, a = 54 + f + g → b = 54 + f →
      (round (num * Nat.pow 2 g) den < Nat.pow 2 a ↔
        num < (Nat.pow 2 b - Nat.pow 2 f) * den) := by
    rintro f g _ _ rfl rfl
    exact round_mul_two_pow_lt_iff hDen num f g
  unfold one limit edge
  exact hPowers 970 1074 2098 1024 rfl rfl

/-- A quotient below one half is rounded to nothing. -/
theorem round_eq_zero {num den : Nat} (h : 2 * num < den) : round num den = 0 := by
  have hQuotient : num / den = 0 := Nat.div_eq_of_lt (by omega)
  have hRest : num % den = num := Nat.mod_eq_of_lt (by omega)
  rw [round_eq, hQuotient, show excessBits 0 = 0 from rfl, Nat.pow_zero, Nat.mul_one, Nat.mul_one,
    roundQuotient]
  simp only [hQuotient, hRest, h, if_true]

/-- A power of ten beyond the edge. -/
theorem edge_le_ten_pow : ∃ k ≤ 311, edge ≤ 10 ^ k := ⟨311, by decide, by decide +kernel⟩

theorem limit_pos : 0 < limit := by decide +kernel

/-- A power of ten beyond the units of two. -/
theorem two_mul_one_le_ten_pow : ∃ k ≤ 400, 2 * one ≤ 10 ^ k := ⟨400, by decide, by decide +kernel⟩

end Units

/-! ## Decimals -/

namespace Decimal

/-- Whether `mantissa * 10 ^ exponent` is too large for a double. -/
def Overflows (mantissa : Nat) (exponent : Int) : Prop :=
  Units.edge * 10 ^ (-exponent).toNat ≤ mantissa * 10 ^ exponent.toNat

instance (mantissa : Nat) (exponent : Int) : Decidable (Overflows mantissa exponent) :=
  inferInstanceAs (Decidable (_ ≤ _))

/-- Ten bits are more than three digits. -/
theorem ten_pow_le_two_pow (n : Nat) : 10 ^ (n * 3 / 10) ≤ 2 ^ n := by
  refine (Nat.pow_le_pow_iff_left (n := 10) (by decide)).mp ?_
  calc (10 ^ (n * 3 / 10)) ^ 10
      = 10 ^ (n * 3 / 10 * 10) := (Nat.pow_mul ..).symm
    _ ≤ 10 ^ (3 * n) := Nat.pow_le_pow_right (by decide) (by omega)
    _ = (10 ^ 3) ^ n := Nat.pow_mul ..
    _ ≤ (2 ^ 10) ^ n := Nat.pow_le_pow_left (by decide) n
    _ = (2 ^ n) ^ 10 := by rw [← Nat.pow_mul, ← Nat.pow_mul, Nat.mul_comm]

/-- Three bits are less than one digit. -/
theorem lt_ten_pow (n : Nat) : n < 10 ^ (n.log2 / 3 + 1) := by
  calc n < 2 ^ (n.log2 + 1) := Nat.lt_log2_self
    _ ≤ 2 ^ (3 * (n.log2 / 3 + 1)) := Nat.pow_le_pow_right (by decide) (by omega)
    _ = (2 ^ 3) ^ (n.log2 / 3 + 1) := Nat.pow_mul ..
    _ ≤ 10 ^ (n.log2 / 3 + 1) := Nat.pow_le_pow_left (by decide) _

section

variable {mantissa : Nat} {exponent : Int}

/-- A decimal with too many digits in front of the point overflows, whatever they are. -/
theorem overflows_of_large (hNe : mantissa ≠ 0)
    (h : 310 < exponent + (mantissa.log2 * 3 / 10 : Nat)) : Overflows mantissa exponent := by
  obtain ⟨k, hk, hEdge⟩ := Units.edge_le_ten_pow
  calc Units.edge * 10 ^ (-exponent).toNat
      ≤ 10 ^ k * 10 ^ (-exponent).toNat := Nat.mul_le_mul_right _ hEdge
    _ = 10 ^ (k + (-exponent).toNat) := (Nat.pow_add ..).symm
    _ ≤ 10 ^ (mantissa.log2 * 3 / 10 + exponent.toNat) :=
      Nat.pow_le_pow_right (by decide) (by omega)
    _ = 10 ^ (mantissa.log2 * 3 / 10) * 10 ^ exponent.toNat := Nat.pow_add ..
    _ ≤ mantissa * 10 ^ exponent.toNat := Nat.mul_le_mul_right _
      (Nat.le_trans (ten_pow_le_two_pow _) (Nat.log2_self_le hNe))

theorem roundedUnits_eq (mantissa : Nat) (exponent : Int) : roundedUnits mantissa exponent =
    Units.round (mantissa * 10 ^ exponent.toNat * Units.one) (10 ^ (-exponent).toNat) := rfl

/-- A decimal is rounded to a finite double unless it overflows. -/
theorem roundedUnits_lt_limit_iff :
    roundedUnits mantissa exponent < Units.limit ↔ ¬ Overflows mantissa exponent := by
  rw [roundedUnits_eq, Units.round_lt_limit_iff (Nat.pow_pos (by decide)), Overflows, Nat.not_le]

/-- Zero is rounded to zero, whatever its exponent. -/
theorem roundedUnits_zero : roundedUnits 0 exponent = 0 := by
  rw [roundedUnits_eq, Nat.zero_mul, Nat.zero_mul]
  exact Units.round_eq_zero (Nat.pow_pos (by decide))

/-- A decimal with too many zeros behind the point is rounded to zero. -/
theorem roundedUnits_of_tiny (h : exponent + (mantissa.log2 / 3 + 1 : Nat) < -400) :
    roundedUnits mantissa exponent = 0 := by
  obtain ⟨k, hk, hUnit⟩ := Units.two_mul_one_le_ten_pow
  rw [roundedUnits_eq, show exponent.toNat = 0 by omega, Nat.pow_zero, Nat.mul_one]
  apply Units.round_eq_zero
  calc 2 * (mantissa * Units.one) = mantissa * (2 * Units.one) := Nat.mul_left_comm ..
    _ ≤ mantissa * 10 ^ k := Nat.mul_le_mul_left _ hUnit
    _ < 10 ^ (mantissa.log2 / 3 + 1) * 10 ^ k :=
      Nat.mul_lt_mul_of_pos_right (lt_ten_pow _) (Nat.pow_pos (by decide))
    _ = 10 ^ (mantissa.log2 / 3 + 1 + k) := (Nat.pow_add ..).symm
    _ ≤ 10 ^ (-exponent).toNat := Nat.pow_le_pow_right (by decide) (by omega)

/-- The magnitude of a decimal is its value in units, rounded. What is told from the exponent alone
is told rightly. -/
theorem toUnits?_eq (mantissa : Nat) (exponent : Int) : toUnits? mantissa exponent =
    if Overflows mantissa exponent then none else some (roundedUnits mantissa exponent) := by
  have hLimit := @roundedUnits_lt_limit_iff mantissa exponent
  -- the first three cases are decided before anything is rounded
  unfold toUnits?
  dsimp only
  split
  · next hZero =>
    subst hZero
    rw [roundedUnits_zero] at hLimit ⊢
    rw [if_neg (hLimit.mp Units.limit_pos)]
  · next hNe =>
    split
    · next hLarge => rw [if_pos (overflows_of_large hNe hLarge)]
    · split
      · next hTiny =>
        rw [roundedUnits_of_tiny hTiny] at hLimit ⊢
        rw [if_neg (hLimit.mp Units.limit_pos)]
      · simp only [hLimit, ite_not]

/-- Which decimals overflow. -/
theorem toUnits?_eq_none_iff : toUnits? mantissa exponent = none ↔ Overflows mantissa exponent := by
  rw [toUnits?_eq]
  split <;> simp_all

/-- Units that are given are those of a finite double. -/
theorem lt_limit_of_toUnits? {units : Nat} (h : toUnits? mantissa exponent = some units) :
    units < Units.limit := by
  rw [toUnits?_eq] at h
  split at h
  · cases h
  · next hFits =>
    cases h
    exact roundedUnits_lt_limit_iff.mpr hFits

end

end Decimal

/-! ## Doubles -/

/-- The double is a number below the limit. -/
def Binary64.IsFinite (v : Binary64) : Prop := ∃ x : Finite, v = .finite x ∧ x.units < Units.limit

/-- A decimal gives a finite double unless it overflows. -/
theorem Decimal.isFinite_toBinary64_iff {negative : Bool} {mantissa : Nat} {exponent : Int} :
    (toBinary64 negative mantissa exponent).IsFinite ↔ ¬ Overflows mantissa exponent := by
  rw [← toUnits?_eq_none_iff, toBinary64]
  cases hUnits : toUnits? mantissa exponent with
  | none =>
    simp only [not_true_eq_false, iff_false]
    rintro ⟨x, hEq, -⟩
    cases hEq
  | some units =>
    simp only [reduceCtorEq, not_false_eq_true, iff_true]
    exact ⟨_, rfl, lt_limit_of_toUnits? hUnits⟩

/-- Integers before the edge do not overflow. -/
theorem Finite.units_ofInt_lt {n : Int} (h : n.natAbs < Units.edge) :
    (ofInt n).units < Units.limit := by
  have hNat {k : Nat} (hk : k < Units.edge) : (ofNat k).units < Units.limit :=
    (Units.round_lt_limit_iff Nat.one_pos k).mpr (by rwa [Nat.mul_one])
  cases n with
  | ofNat k => exact hNat h
  | negSucc k => exact hNat h

end Onboarding
