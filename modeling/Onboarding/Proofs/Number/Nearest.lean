import Mathlib.Algebra.Group.Int.Defs
import Mathlib.Algebra.Group.Nat.Defs
import Onboarding.Number.Binary64

/-!
# Onboarding — the double nearest to an integer

Which double stands for an integer is said without the arithmetic that finds it:
a double that no other one is nearer than, and between two equally near ones the
one in which their distance goes an even number of times (`Nearest`). There is
exactly one (`Nearest.unique`, `nearest_rounded`), and whatever else is said of the
doubles of integers follows from these properties alone: their order never turns
that of the integers round (`Nearest.mono`), and integers that lie apart are told
apart (`Nearest.lt_iff`).

The search works on magnitudes in units of 2^-1074, in which every integer is a
multiple of one; rounding commutes with such a multiple (`Units.round_scale`).

## Results

* `Nearest.unique` — an integer has one nearest double.
* `Nearest.mono`, `Nearest.eq_iff`, `Nearest.lt_iff` — the order of integers and
  that of their doubles.
* `nearest_rounded` — rounding finds the nearest double.
* `Finite.scaled_ofInt` — the double of an integer has that value.
-/

namespace Onboarding

/-! ## Nearest doubles -/

/-- The integer is the value of a double: it has at most 53 significant bits. -/
def IsDouble (v : Int) : Prop := ∃ (m : Int) (e : Nat), m.natAbs < 2 ^ 53 ∧ v = m * 2 ^ e

/-- What has less than 54 bits is a double. -/
theorem isDouble_of_small {v : Int} (h : v.natAbs < 2 ^ 53) : IsDouble v := ⟨v, 0, h, by omega⟩

theorem isDouble_of_le {v : Int} (h : v.natAbs ≤ 2 ^ 53) : IsDouble v := by
  rcases Nat.lt_or_eq_of_le h with hLt | hEq
  · exact isDouble_of_small hLt
  · -- one bit is enough for 2^53
    rcases Int.natAbs_eq v with hPos | hNeg
    · exact ⟨1, 53, by decide, by omega⟩
    · exact ⟨-1, 53, by decide, by omega⟩

/-- A power of two only moves the bits of a double. -/
theorem IsDouble.mul_pow {v : Int} (h : IsDouble v) (e : Nat) : IsDouble (v * 2 ^ e) := by
  obtain ⟨m, f, hm, rfl⟩ := h
  exact ⟨m, f + e, hm, by rw [Int.pow_add, Int.mul_assoc]⟩

/-- A double with a smaller unit is smaller than one with 53 bits. -/
theorem IsDouble.exists_mul_or_lt {v : Int} (h : IsDouble v) (e : Nat) :
    (∃ k : Int, v = k * (2 ^ e : Nat)) ∨ 0 < e ∧ v.natAbs < 2 ^ (52 + e) := by
  obtain ⟨m, f, hm, rfl⟩ := h
  rcases Nat.lt_or_ge f e with hLt | hGe
  · refine .inr ⟨by omega, ?_⟩
    calc (m * 2 ^ f).natAbs = m.natAbs * 2 ^ f := by rw [Int.natAbs_mul, Int.natAbs_pow]; rfl
      _ < 2 ^ 53 * 2 ^ f := Nat.mul_lt_mul_of_pos_right hm (Nat.two_pow_pos f)
      _ = 2 ^ (53 + f) := (Nat.pow_add ..).symm
      _ ≤ 2 ^ (52 + e) := Nat.pow_le_pow_right (by decide) (by omega)
  · refine .inl ⟨m * 2 ^ (f - e), ?_⟩
    have hSplit : (2 : Int) ^ f = 2 ^ (f - e) * 2 ^ e := by
      rw [← Int.pow_add, Nat.sub_add_cancel hGe]
    rw [Int.natCast_pow, Int.mul_assoc, hSplit]
    rfl

/-- Doubles come with both signs. -/
theorem IsDouble.neg {v : Int} (h : IsDouble v) : IsDouble (-v) := by
  obtain ⟨m, e, hm, rfl⟩ := h
  exact ⟨-m, e, by omega, (Int.neg_mul ..).symm⟩

/-- `v` is the double nearest to `n`. A tie goes to the double with the even last bit: the distance
of the two, which is the unit of that bit, goes into it an even number of times. -/
structure Nearest (n v : Int) : Prop where
  isDouble : IsDouble v
  near : ∀ w, IsDouble w → (n - v).natAbs ≤ (n - w).natAbs
  even : ∀ w, IsDouble w → w ≠ v → (n - w).natAbs = (n - v).natAbs → 2 * (v - w) ∣ v

/-- Rounding to doubles keeps two integers apart: both are doubles, or one has less than 54 bits. -/
def Apart (a b : Int) : Prop :=
  a.natAbs < 2 ^ 53 ∨ b.natAbs < 2 ^ 53 ∨ IsDouble a ∧ IsDouble b

theorem Apart.symm {a b : Int} (h : Apart a b) : Apart b a := by
  rcases h with hSmall | hSmall | ⟨hDouble, hDouble'⟩
  · exact .inr (.inl hSmall)
  · exact .inl hSmall
  · exact .inr (.inr ⟨hDouble', hDouble⟩)

namespace Nearest

variable {n a b v w : Int}

/-- The nearest double is the same on both sides of zero. -/
theorem neg (h : Nearest n v) : Nearest (-n) (-v) where
  isDouble := h.isDouble.neg
  near w hw := by
    have hNear := h.near (-w) hw.neg
    omega
  even w hw hNe hTie := by
    have hEven := h.even (-w) hw.neg (by omega) (by omega)
    have hTwice : 2 * (-v - w) = -(2 * (v - -w)) := by omega
    rw [hTwice]
    exact Int.neg_dvd.mpr (Int.dvd_neg.mpr hEven)

/-- An integer has one nearest double. -/
theorem unique (hv : Nearest n v) (hw : Nearest n w) : v = w := by
  apply Decidable.byContradiction
  intro hNe
  have hLe := hv.near w hw.isDouble
  have hGe := hw.near v hv.isDouble
  -- a tie would go to both, and twice their distance would go into the distance
  obtain ⟨i, hi⟩ := hv.even w hw.isDouble (Ne.symm hNe) (by omega)
  obtain ⟨j, hj⟩ := hw.even v hv.isDouble hNe (by omega)
  have hTwice : (v - w) * (2 * (i + j)) = (v - w) * 1 := by
    have hNeg : 2 * (w - v) * j = -(2 * (v - w) * j) := by
      rw [← Int.neg_mul]
      congr 1
      omega
    rw [hNeg] at hj
    rw [Int.mul_left_comm, ← Int.mul_assoc, Int.mul_add, ← hi]
    omega
  have hOne := Int.eq_of_mul_eq_mul_left (by omega) hTwice
  omega

/-- A double is nearest to itself. -/
theorem eq_self (h : Nearest n v) (hDouble : IsDouble n) : v = n := by
  have hNear := h.near n hDouble
  omega

/-- The order of the doubles does not turn that of the integers round. -/
theorem mono (ha : Nearest a v) (hb : Nearest b w) (h : a ≤ b) : v ≤ w := by
  rcases Int.lt_or_eq_of_le h with hLt | rfl
  · have hLow := ha.near w hb.isDouble
    have hHigh := hb.near v ha.isDouble
    omega
  · exact Int.le_of_eq (ha.unique hb)

/-- An integer is not taken for one of less than 54 bits: a neighbour of that would be nearer. -/
theorem eq_of_small (ha : Nearest a v) (hb : Nearest b v) (h : a.natAbs < 2 ^ 53) : b = a := by
  have hSelf := ha.eq_self (isDouble_of_small h)
  have hAbove := hb.near (a + 1) (isDouble_of_le (by omega))
  have hBelow := hb.near (a - 1) (isDouble_of_le (by omega))
  omega

/-- Where rounding keeps integers apart, equal doubles come from equal integers. -/
theorem eq_iff (ha : Nearest a v) (hb : Nearest b w) (h : Apart a b) : v = w ↔ a = b := by
  constructor
  · rintro rfl
    rcases h with hSmall | hSmall | ⟨hDouble, hDouble'⟩
    · exact (ha.eq_of_small hb hSmall).symm
    · exact hb.eq_of_small ha hSmall
    · rw [← ha.eq_self hDouble, ← hb.eq_self hDouble']
  · rintro rfl
    exact ha.unique hb

/-- Integers that lie apart have the order of their doubles. -/
theorem lt_iff (ha : Nearest a v) (hb : Nearest b w) (h : Apart a b) : v < w ↔ a < b := by
  have hEq := ha.eq_iff hb h
  constructor
  · intro hLt
    apply Int.not_le.mp
    intro hLe
    have hMono := hb.mono ha hLe
    omega
  · intro hLt
    have hMono := ha.mono hb (Int.le_of_lt hLt)
    omega

end Nearest

/-! ## Rounded quotients -/

namespace Units

variable {num den : Nat}

/-- A quotient is rounded down or up, whichever is nearer, and in a tie to the even one. -/
theorem roundQuotient_cases (num den : Nat) :
    (roundQuotient num den = num / den ∧ 2 * (num % den) ≤ den ∧
        (2 * (num % den) = den → num / den % 2 = 0)) ∨
      (roundQuotient num den = num / den + 1 ∧ den ≤ 2 * (num % den) ∧
        (2 * (num % den) = den → (num / den + 1) % 2 = 0)) := by
  simp only [roundQuotient]
  split
  · exact .inl ⟨rfl, by omega, by omega⟩
  · split
    · exact .inr ⟨rfl, by omega, by omega⟩
    · split
      · exact .inl ⟨rfl, by omega, by omega⟩
      · exact .inr ⟨rfl, by omega, by omega⟩

/-- What is rounded is off by at most half a divisor, and by that only if the quotient is even. -/
theorem roundQuotient_near (hDen : 0 < den) (num : Nat) :
    2 * ((num : Int) - (roundQuotient num den * den : Nat)).natAbs ≤ den ∧
      (2 * ((num : Int) - (roundQuotient num den * den : Nat)).natAbs = den →
        roundQuotient num den % 2 = 0) := by
  have hSplit := Nat.div_add_mod' num den
  have hRest := Nat.mod_lt num hDen
  have hSucc : (num / den + 1) * den = num / den * den + den := Nat.succ_mul _ _
  rcases roundQuotient_cases num den with ⟨hQuotient, hHalf, hTie⟩ | ⟨hQuotient, hHalf, hTie⟩
  · rw [hQuotient]
    omega
  · rw [hQuotient, hSucc]
    omega

/-- A quotient is rounded alike when it is not in lowest terms. -/
theorem roundQuotient_scale {k : Nat} (hk : 0 < k) (num den : Nat) :
    roundQuotient (num * k) (den * k) = roundQuotient num den := by
  have hBelow : 2 * (num % den * k) < den * k ↔ 2 * (num % den) < den := by
    rw [← Nat.mul_assoc, Nat.mul_lt_mul_right hk]
  have hAbove : den * k < 2 * (num % den * k) ↔ den < 2 * (num % den) := by
    rw [← Nat.mul_assoc, Nat.mul_lt_mul_right hk]
  simp only [roundQuotient, Nat.mul_div_mul_right _ _ hk, Nat.mul_mod_mul_right, hBelow, hAbove]

/-- No multiple of the divisor is nearer than the rounded one. One that is equally near lies one
divisor off, and then the quotient is even. -/
theorem roundQuotient_nearest (hDen : 0 < den) (num : Nat) (k : Int) :
    let v : Int := (roundQuotient num den * den : Nat)
    ((num : Int) - v).natAbs ≤ ((num : Int) - k * den).natAbs ∧
      (k * den ≠ v → ((num : Int) - k * den).natAbs = ((num : Int) - v).natAbs →
        2 * (v - k * den) ∣ v) := by
  intro v
  obtain ⟨hNear, hEven⟩ := roundQuotient_near hDen num
  have hv : v = roundQuotient num den * (den : Int) := Int.natCast_mul ..
  -- another multiple lies at least one divisor away
  have hAway : k * den = v ∨ k * den ≤ v - den ∨ v + den ≤ k * den := by
    rcases Int.lt_trichotomy k (roundQuotient num den) with hLt | rfl | hGt
    · have hMul := Int.mul_le_mul_of_nonneg_right (Int.add_one_le_of_lt hLt)
        (Int.natCast_nonneg den)
      rw [Int.add_mul, Int.one_mul, ← hv] at hMul
      omega
    · exact .inl hv.symm
    · have hMul := Int.mul_le_mul_of_nonneg_right (Int.add_one_le_of_lt hGt)
        (Int.natCast_nonneg den)
      rw [Int.add_mul, Int.one_mul, ← hv] at hMul
      omega
  refine ⟨by omega, fun hNe hTie => ?_⟩
  obtain ⟨half, hHalf⟩ : ∃ half, roundQuotient num den = 2 * half :=
    ⟨roundQuotient num den / 2, by omega⟩
  have hDouble : v = 2 * den * half := by
    rw [hv, hHalf, Int.natCast_mul, Int.mul_right_comm]
    rfl
  rcases hAway with hEq | hBelow | hAbove
  · exact absurd hEq hNe
  · have hUnit : v - k * den = den := by omega
    exact ⟨half, by rw [hUnit, hDouble]⟩
  · have hUnit : v - k * den = -den := by omega
    exact ⟨-half, by rw [hUnit, hDouble, Int.mul_neg, Int.mul_neg, Int.neg_mul, Int.neg_neg]⟩

/-! ## Rounded magnitudes -/

/-- Beyond its 53 first bits a number has the excess bits only. -/
theorem lt_two_pow (n : Nat) : n < 2 ^ (53 + excessBits n) :=
  Nat.lt_of_lt_of_le Nat.lt_log2_self
    (Nat.pow_le_pow_right (by decide) (by rw [excessBits]; omega))

/-- With bits in excess a number has all of its 53 first bits. -/
theorem two_pow_le {n : Nat} (h : 0 < excessBits n) : 2 ^ (52 + excessBits n) ≤ n := by
  have hNe : n ≠ 0 := by
    rintro rfl
    exact absurd h (by decide)
  refine Nat.le_trans (Nat.pow_le_pow_right (by decide) ?_) (Nat.log2_self_le hNe)
  rw [excessBits] at h ⊢
  omega

/-- A whole number is rounded at the lowest of its 53 first bits. -/
theorem round_one (n : Nat) :
    round n 1 = roundQuotient n (2 ^ excessBits n) * 2 ^ excessBits n := by
  rw [round, Nat.div_one, Nat.one_mul]
  rfl

/-- A rounded magnitude has 53 bits, or it has been carried to the next power of two. -/
theorem roundQuotient_le (n : Nat) : roundQuotient n (2 ^ excessBits n) ≤ 2 ^ 53 := by
  have hQuotient : n / 2 ^ excessBits n < 2 ^ 53 := by
    rw [Nat.div_lt_iff_lt_mul (Nat.two_pow_pos _), ← Nat.pow_add]
    exact lt_two_pow n
  rcases roundQuotient_cases n (2 ^ excessBits n) with ⟨hDown, -⟩ | ⟨hUp, -⟩
  · omega
  · omega

/-- Rounding a natural number to 53 bits finds the nearest double. -/
theorem nearest_round (n : Nat) : Nearest n (round n 1 : Nat) := by
  have hUnit := Nat.two_pow_pos (excessBits n)
  have hGrid := roundQuotient_nearest hUnit n
  rw [← round_one] at hGrid
  -- a double with a smaller unit is smaller than one that is no nearer than the rounded number
  have hBelow {w : Int} (hPos : 0 < excessBits n) (hSmall : w.natAbs < 2 ^ (52 + excessBits n)) :
      ((n : Int) - (round n 1 : Nat)).natAbs < ((n : Int) - w).natAbs := by
    have hLeast := two_pow_le hPos
    have hNear := (hGrid (2 ^ 52)).1
    have hEdge : (2 ^ 52 : Int) * (2 ^ excessBits n : Nat) = (2 ^ (52 + excessBits n) : Nat) := by
      rw [Int.natCast_pow, Int.natCast_pow, Int.pow_add]
      rfl
    rw [hEdge] at hNear
    omega
  constructor
  · rw [round_one, Int.natCast_mul, Int.natCast_pow]
    exact IsDouble.mul_pow (isDouble_of_le (v := roundQuotient n _) (roundQuotient_le n)) _
  · intro w hw
    rcases hw.exists_mul_or_lt (excessBits n) with ⟨k, rfl⟩ | ⟨hPos, hSmall⟩
    · exact (hGrid k).1
    · exact Nat.le_of_lt (hBelow hPos hSmall)
  · intro w hw hNe hTie
    rcases hw.exists_mul_or_lt (excessBits n) with ⟨k, rfl⟩ | ⟨hPos, hSmall⟩
    · exact (hGrid k).2 hNe hTie
    · exact absurd hTie (Nat.ne_of_gt (hBelow hPos hSmall))

/-- A power of two adds its exponent to the binary logarithm. -/
theorem log2_mul_two_pow {n : Nat} (hn : n ≠ 0) (k : Nat) : (n * 2 ^ k).log2 = n.log2 + k := by
  induction k with
  | zero => simp
  | succ k ih =>
    have hNe : n * 2 ^ k ≠ 0 := Nat.mul_ne_zero hn (Nat.ne_of_gt (Nat.two_pow_pos k))
    rw [Nat.pow_succ, ← Nat.mul_assoc, Nat.mul_comm _ 2, Nat.log2_two_mul hNe, ih, Nat.add_assoc]

theorem round_of_eq_mul {n q : Nat} (h : n = q * 2 ^ excessBits n) : round n 1 = n := by
  have hQuotient : roundQuotient n (2 ^ excessBits n) = q := by
    conv => lhs; arg 1; rw [h]
    exact roundQuotient_mul (Nat.two_pow_pos _) q
  rw [round_one, hQuotient, ← h]

/-- Rounding commutes with powers of two. -/
theorem round_scale (n k : Nat) : round (n * 2 ^ k) 1 = round n 1 * 2 ^ k := by
  rcases Nat.eq_zero_or_pos n with rfl | hn
  · rw [Nat.zero_mul, show round 0 1 = 0 from rfl, Nat.zero_mul]
  have hLog := log2_mul_two_pow (Nat.ne_of_gt hn) k
  rcases Nat.eq_zero_or_pos (excessBits n) with hFits | hPos
  · -- at most 53 bits are kept on both sides
    have hSelf : round n 1 = n :=
      round_of_eq_mul (q := n) (by rw [hFits, Nat.pow_zero, Nat.mul_one])
    have hLe : excessBits (n * 2 ^ k) ≤ k := by
      rw [excessBits] at hFits ⊢
      omega
    rw [hSelf]
    refine round_of_eq_mul (q := n * 2 ^ (k - excessBits (n * 2 ^ k))) ?_
    rw [Nat.mul_assoc, ← Nat.pow_add, Nat.sub_add_cancel hLe]
  · have hExcess : excessBits (n * 2 ^ k) = excessBits n + k := by
      rw [excessBits] at hPos
      rw [excessBits, excessBits, hLog]
      omega
    rw [round_one, hExcess, Nat.pow_add, roundQuotient_scale (Nat.two_pow_pos k), round_one,
      Nat.mul_assoc]

theorem exists_one : ∃ k, one = 2 ^ k := by
  unfold one
  -- the power is too large to be worked out
  generalize 1074 = k
  exact ⟨k, Nat.pow_eq⟩

theorem one_pos : 0 < (one : Int) := by
  obtain ⟨k, hOne⟩ := exists_one
  rw [hOne]
  exact Int.natCast_pos.mpr (Nat.two_pow_pos k)

end Units

/-! ## The doubles of integers -/

/-- The value of the double nearest to an integer. -/
def rounded (n : Int) : Int := n.sign * Units.round n.natAbs 1

/-- The double of a natural number is its rounded magnitude. -/
theorem rounded_natCast (n : Nat) : rounded n = Units.round n 1 := by
  cases n with
  | zero => rfl
  | succ n => exact Int.one_mul _

/-- The sign takes no part in rounding. -/
theorem rounded_neg (n : Int) : rounded (-n) = -rounded n := by
  rw [rounded, Int.sign_neg, Int.natAbs_neg, Int.neg_mul, rounded]

/-- The double of an integer is the one nearest to it. -/
theorem nearest_rounded (n : Int) : Nearest n (rounded n) := by
  rcases Int.natAbs_eq n with hPos | hNeg
  · rw [hPos, rounded_natCast]
    exact Units.nearest_round _
  · rw [hNeg, rounded_neg, rounded_natCast]
    exact (Units.nearest_round _).neg

namespace Finite

/-- A double counts its value in units. -/
theorem scaled_ofNat (n : Nat) : (ofNat n).scaled = rounded n * Units.one := by
  have hRound : Units.round (n * Units.one) 1 = Units.round n 1 * Units.one := by
    obtain ⟨k, hOne⟩ := Units.exists_one
    rw [hOne]
    exact Units.round_scale n k
  rw [rounded_natCast, ← Int.natCast_mul, ← hRound]
  rfl

/-- The double of an integer has the nearest value. -/
theorem scaled_ofInt (n : Int) : (ofInt n).scaled = rounded n * Units.one := by
  cases n with
  | ofNat n => exact scaled_ofNat n
  | negSucc n =>
    rw [Int.negSucc_eq, ← Int.natCast_succ, rounded_neg, Int.neg_mul, ← scaled_ofNat]
    exact scaled_neg _

/-- Two integers are the same number to a comparison if their doubles are. -/
theorem same_ofInt {a b : Int} : (ofInt a).same (ofInt b) = true ↔ rounded a = rounded b := by
  rw [same, beq_iff_eq, scaled_ofInt, scaled_ofInt,
    Int.mul_eq_mul_right_iff (Int.ne_of_gt Units.one_pos)]

/-- Two integers are ordered as their doubles are. -/
theorem compare_ofInt (a b : Int) :
    (ofInt a).compare (ofInt b) = compareOfLessAndEq (rounded a) (rounded b) := by
  rw [Finite.compare, scaled_ofInt, scaled_ofInt, compareOfLessAndEq, compareOfLessAndEq]
  simp only [Int.mul_lt_mul_right Units.one_pos,
    Int.mul_eq_mul_right_iff (Int.ne_of_gt Units.one_pos)]

end Finite

end Onboarding
