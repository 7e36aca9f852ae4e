/-!
# Onboarding — binary64 numbers

Every finite double is a whole multiple of 2^-1074, so its magnitude is kept as
the natural number of those units. A number of units is a double's when it has
at most 53 significant bits and stays below the overflow limit. Arithmetic is
exact on ratios of natural numbers and rounds once, to nearest, ties to even.

## Results

* `roundQuotient_mul` — an exact quotient is not changed by rounding.
* `Finite.scaled_neg` — negation negates the value.
-/

namespace Onboarding

/-! ## Magnitudes in units of 2^-1074 -/

namespace Units

/-- The units of the number one. -/
def one : Nat := Nat.pow 2 1074

/-- The least magnitude that is too large for a double. -/
def limit : Nat := Nat.pow 2 2098

/-- `num / den` rounded to a natural number, ties to even. -/
def roundQuotient (num den : Nat) : Nat :=
  let q := num / den
  let r := num % den
  if 2 * r < den then q
  else if den < 2 * r then q + 1
  -- a tie
  else if q % 2 = 0 then q
  else q + 1

/-- The number of low bits that do not fit beside 53 significant ones. -/
def excessBits (units : Nat) : Nat := units.log2 + 1 - 53

/-- `num / den` units rounded to 53 significant bits, ties to even. -/
def round (num den : Nat) : Nat :=
  let excess := excessBits (num / den)
  roundQuotient num (den * Nat.pow 2 excess) * Nat.pow 2 excess

theorem roundQuotient_mul {den : Nat} (h : 0 < den) (q : Nat) :
    roundQuotient (q * den) den = q := by
  simp [roundQuotient, Nat.mul_div_cancel _ h, h]

end Units

/-! ## Finite doubles -/

/-- A finite double: a sign and a magnitude in units of 2^-1074. Both zeros exist. -/
structure Finite where
  negative : Bool
  units : Nat
deriving DecidableEq

namespace Finite

/-- Positive zero. -/
def zero : Finite := ⟨false, 0⟩

/-- The number one. -/
def one : Finite := ⟨false, Units.one⟩

instance : Inhabited Finite := ⟨zero⟩

/-- The value in units of 2^-1074; both zeros have the value 0. -/
def scaled (x : Finite) : Int := if x.negative then -(x.units : Int) else x.units

/-- The same magnitude with the other sign. -/
def neg (x : Finite) : Finite := { x with negative := !x.negative }

/-- Whether two doubles have one value. -/
def same (x y : Finite) : Bool := x.scaled == y.scaled

/-- The order of the values. -/
def compare (x y : Finite) : Ordering := compareOfLessAndEq x.scaled y.scaled

/-- The double nearest to `num / den` units, if it does not overflow. -/
def ofUnits? (negative : Bool) (num den : Nat) : Option Finite :=
  let u := Units.round num den
  if u < Units.limit then some ⟨negative, u⟩ else none

/-- The double nearest to a natural number below 2^1023. -/
def ofNat (n : Nat) : Finite := ⟨false, Units.round (n * Units.one) 1⟩

/-- The double nearest to an integer of magnitude below 2^1023. -/
def ofInt : Int → Finite
  | .ofNat n => ofNat n
  | .negSucc n => (ofNat (n + 1)).neg

/-- The product, if it does not overflow. -/
def mul? (x y : Finite) : Option Finite :=
  ofUnits? (x.negative != y.negative) (x.units * y.units) Units.one

/-- The quotient by a double that is not zero, if it does not overflow. -/
def div? (x y : Finite) : Option Finite :=
  ofUnits? (x.negative != y.negative) (x.units * Units.one) y.units

/-- The nearest of `low`, `high` and what lies between them. -/
def clamp (x low high : Finite) : Finite :=
  if x.scaled < low.scaled then low else if high.scaled < x.scaled then high else x

theorem scaled_neg (x : Finite) : x.neg.scaled = -x.scaled := by
  obtain ⟨negative, units⟩ := x
  cases negative <;> simp [scaled, neg]

end Finite

/-! ## Doubles -/

/-- A double, with the infinities and the value that is not a number. -/
inductive Binary64 where
  | finite (x : Finite)
  | infinite (negative : Bool)
  | nan
deriving DecidableEq

namespace Binary64

/-- The finite double, if it is one. -/
def toFinite? : Binary64 → Option Finite
  | finite x => some x
  | _ => none

end Binary64

end Onboarding
