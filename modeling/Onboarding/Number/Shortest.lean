import Onboarding.Number.Decimal

/-!
# Onboarding — the shortest decimal text of a double

A double is written with the fewest digits that read back as the same double,
and among those with the ones nearest to it; between two equally near ones the
even last digit wins. Seventeen digits are always enough. Numbers from 10^-5 up
to 10^16 are written positionally, with `.0` if they are whole, all others with
an exponent that always has a sign.
-/

namespace Onboarding.Shortest

/-! ## The digits -/

/-- The exponent `p` with `10 ^ p ≤ units < 10 ^ (p + 1)`, for a positive number of units. -/
def leadingExponent (units : Nat) : Int :=
  let guess : Int := ((units.log2 : Int) - 1074) * 30103 / 100000
  let reaches (p : Int) : Bool := match p with
    | .ofNat e => Nat.pow 10 e * Units.one ≤ units
    | .negSucc e => Units.one ≤ units * Nat.pow 10 (e + 1)
  if reaches (guess + 1) then guess + 1
  else if reaches guess then guess
  else guess - 1

/-- Whether a decimal reads back as the magnitude. -/
def readsBack (units mantissa : Nat) (exponent : Int) : Bool :=
  Decimal.toUnits? mantissa exponent == some units

/-- The whole number of steps of `10 ^ exponent` in the magnitude, and twice the rest of the
division next to the divisor, which tells which neighbour is nearer. -/
def stepsIn (units : Nat) (exponent : Int) : Nat × Nat × Nat :=
  let (num, den) := match exponent with
    | .ofNat e => (units, Nat.pow 10 e * Units.one)
    | .negSucc e => (units * Nat.pow 10 (e + 1), Units.one)
  (num / den, 2 * (num % den), den)

/-- The better of the two decimals with steps of `10 ^ exponent` around the magnitude, if one
reads back. -/
def candidate? (units : Nat) (exponent : Int) : Option (Nat × Int) :=
  let (below, rest, den) := stepsIn units exponent
  let lowFits := readsBack units below exponent
  let highFits := readsBack units (below + 1) exponent
  let highNearer := den < rest || (rest == den && below % 2 == 1)
  if lowFits && !(highFits && highNearer) then some (below, exponent)
  else if highFits then some (below + 1, exponent)
  else none

/-- Drop trailing zeros of the digits into the exponent. -/
def dropZeros (mantissa : Nat) (exponent : Int) : Nat → Nat × Int
  | 0 => (mantissa, exponent)
  | fuel + 1 =>
    if mantissa % 10 = 0 then dropZeros (mantissa / 10) (exponent + 1) fuel
    else (mantissa, exponent)

/-- The shortest decimal of a positive magnitude: its digits and the exponent of the last one. -/
def digits (units : Nat) : Nat × Int :=
  let p := leadingExponent units
  match (List.range 17).findSome? fun (n : Nat) => candidate? units (p - (n : Int)) with
  | some (mantissa, exponent) => dropZeros mantissa exponent 17
  | none => ((stepsIn units (p - 16)).1, p - 16)

/-! ## The layout -/

/-- The digits of a natural number. -/
def natText (n : Nat) : List Char := Nat.toDigits 10 n

/-- The digits of an integer, after a minus sign if it is negative. -/
def intText : Int → List Char
  | .ofNat n => natText n
  | .negSucc n => '-' :: natText (n + 1)

/-- Digits and the exponent of the last one, written out. -/
def layout (mantissa : Nat) (exponent : Int) : List Char :=
  let ds := natText mantissa
  let leading : Int := exponent + ds.length - 1
  if -5 ≤ leading ∧ leading ≤ 15 then
    -- a whole number
    if 0 ≤ exponent then ds ++ List.replicate exponent.toNat '0' ++ ['.', '0']
    -- the point is among the digits
    else if 0 ≤ leading then
      ds.take (leading.toNat + 1) ++ '.' :: ds.drop (leading.toNat + 1)
    -- the point is before them
    else ['0', '.'] ++ List.replicate (-leading - 1).toNat '0' ++ ds
  else
    let head := match ds with
      | first :: second :: more => first :: '.' :: second :: more
      | _ => ds
    head ++ 'e' :: (if 0 ≤ leading then '+' :: natText leading.toNat else intText leading)

/-- The text of a finite double. -/
def text (x : Finite) : List Char :=
  let body :=
    if x.units = 0 then ['0', '.', '0']
    else
      let (mantissa, exponent) := digits x.units
      layout mantissa exponent
  if x.negative then '-' :: body else body

end Onboarding.Shortest
