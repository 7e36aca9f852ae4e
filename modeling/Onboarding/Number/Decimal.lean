import Onboarding.Number.Binary64

/-!
# Onboarding — numbers written in decimal

Reading of digit texts: natural numbers below a bound, and doubles with an
optional sign, fraction and exponent, rounded correctly. A decimal is a natural
number of digits times a power of ten; `Decimal.toUnits` gives its magnitude as
a double. Only ASCII digits count.
-/

namespace Onboarding.Decimal

/-! ## Digits -/

/-- The natural number that digits denote. -/
def digitsValue (ds : List Char) : Nat := ds.foldl (fun n d => n * 10 + (d.toNat - 48)) 0

/-- The leading digits and what follows them. -/
def splitDigits (s : List Char) : List Char × List Char := s.span Char.isDigit

/-- A natural number below `bound`: digits after an optional plus sign. -/
def readNat? (bound : Nat) (s : List Char) : Option Nat :=
  let ds := match s with
    | '+' :: rest => rest
    | _ => s
  if ds ≠ [] ∧ ds.all Char.isDigit then
    let n := digitsValue ds
    if n < bound then some n else none
  else none

/-! ## Doubles -/

/-- `mantissa * 10 ^ exponent` in units, rounded as if no double were too large. -/
def roundedUnits (mantissa : Nat) (exponent : Int) : Nat :=
  Units.round (mantissa * Nat.pow 10 exponent.toNat * Units.one) (Nat.pow 10 (-exponent).toNat)

/-- The magnitude of `mantissa * 10 ^ exponent`, `none` if it overflows. The bits of the mantissa
tell powers of ten around it; from `10 ^ 311` on a decimal overflows and below `10 ^ -400` it is
zero, so huge exponents cost nothing. -/
def toUnits? (mantissa : Nat) (exponent : Int) : Option Nat :=
  let below := exponent + (mantissa.log2 * 3 / 10 : Nat)
  let above := exponent + (mantissa.log2 / 3 + 1 : Nat)
  if mantissa = 0 then some 0
  else if 310 < below then none
  else if above < -400 then some 0
  else
    let units := roundedUnits mantissa exponent
    if units < Units.limit then some units else none

/-- The double of `mantissa * 10 ^ exponent`, infinite if it overflows. -/
def toBinary64 (negative : Bool) (mantissa : Nat) (exponent : Int) : Binary64 :=
  match toUnits? mantissa exponent with
  | some units => .finite ⟨negative, units⟩
  | none => .infinite negative

/-- The exponent part: empty, or `e` with an optional sign and at least one digit. -/
def readExponent? : List Char → Option Int
  | [] => some 0
  | e :: rest =>
    if e = 'e' ∨ e = 'E' then
      let (sign, ds) := match rest with
        | '+' :: ds => ((1 : Int), ds)
        | '-' :: ds => (-1, ds)
        | ds => (1, ds)
      if ds ≠ [] ∧ ds.all Char.isDigit then some (sign * digitsValue ds) else none
    else none

/-- A decimal without sign: digits with an optional point among or around them, at least one digit
in all, and an optional exponent. -/
def readUnsigned? (s : List Char) : Option (Nat × Int) :=
  let (whole, rest) := splitDigits s
  let (fraction, rest) := match rest with
    | '.' :: rest => splitDigits rest
    | _ => ([], rest)
  if whole = [] ∧ fraction = [] then none
  else (readExponent? rest).map fun exponent =>
    (digitsValue (whole ++ fraction), exponent - fraction.length)

/-- The names of the doubles without digits, in any case. -/
def readName? (negative : Bool) (s : List Char) : Option Binary64 :=
  match String.ofList (s.map Char.toLower) with
  | "inf" => some (.infinite negative)
  | "infinity" => some (.infinite negative)
  | "nan" => some .nan
  | _ => none

/-- A double: an optional sign, then a decimal or one of `inf`, `infinity` and `nan`. -/
def readBinary64? (s : List Char) : Option Binary64 :=
  let (negative, body) := match s with
    | '-' :: rest => (true, rest)
    | '+' :: rest => (false, rest)
    | _ => (false, s)
  match readUnsigned? body with
  | some (mantissa, exponent) => some (toBinary64 negative mantissa exponent)
  | none => readName? negative body

end Onboarding.Decimal
