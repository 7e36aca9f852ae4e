import Onboarding.Json.Basic
import Onboarding.Number.Decimal

/-!
# Onboarding — numerals of JSON texts

The grammar of a JSON numeral as an automaton over its characters, and the
number a numeral denotes. A numeral without fraction and exponent that fits 64
bits, signed or unsigned, is an integer; every other one is a double, also `-0`.

The digits of a double are gathered into a 64-bit significand. Once the next
digit no longer fits, the remaining digits of the integer part only raise the
exponent and the remaining digits of the fraction are dropped. The significand
is then rounded to a double and scaled by powers of ten of at most 10^308 at a
time, each step rounding again, so the result can be off by a last bit. A
numeral beyond the doubles denotes nothing.
-/

namespace Onboarding.Numeral

/-! ## Grammar -/

/-- The part of a numeral that its last character belongs to. -/
inductive Part where
  | sign
  | leadingZero
  | whole
  | point
  | fraction
  | exponentMark
  | exponentSign
  | exponent
deriving DecidableEq

namespace Part

/-- The part a numeral's first character belongs to. -/
def first? (c : Char) : Option Part :=
  if c = '-' then some sign
  else if c = '0' then some leadingZero
  else if c.isDigit then some whole
  else none

/-- The part that the next character belongs to, if the numeral goes on with it. -/
def next? (part : Part) (c : Char) : Option Part :=
  match part with
  | sign => if c = '0' then some leadingZero else if c.isDigit then some whole else none
  | leadingZero | whole =>
    if c.isDigit then (if part = whole then some whole else none)
    else if c = '.' then some point
    else if c = 'e' ∨ c = 'E' then some exponentMark
    else none
  | point => if c.isDigit then some fraction else none
  | fraction =>
    if c.isDigit then some fraction
    else if c = 'e' ∨ c = 'E' then some exponentMark
    else none
  | exponentMark =>
    if c = '+' ∨ c = '-' then some exponentSign
    else if c.isDigit then some exponent
    else none
  | exponentSign | exponent => if c.isDigit then some exponent else none

/-- Whether a numeral may end here. -/
def isComplete : Part → Bool
  | leadingZero | whole | fraction | exponent => true
  | _ => false

end Part

/-! ## The number -/

/-- The largest 64-bit number. -/
def maxSignificand : Nat := Nat.pow 2 64 - 1

/-- Append digits to a significand until one does not fit; the digits left over. -/
def gather (significand : Nat) : List Char → Nat × List Char
  | [] => (significand, [])
  | d :: ds =>
    let n := significand * 10 + (d.toNat - 48)
    if n ≤ maxSignificand then gather n ds else (significand, d :: ds)

/-- The double nearest to a power of ten up to 10^308. -/
def powerOfTen (e : Nat) : Finite := Finite.ofNat (Nat.pow 10 e)

/-- Divide by 10^e in steps of at most 10^308. -/
def scaleDown (x : Finite) (e : Nat) : Option Finite :=
  if e ≤ 308 then x.div? (powerOfTen e)
  else if x.units = 0 then some x
  else (x.div? (powerOfTen 308)).bind fun y => scaleDown y (e - 308)
termination_by e

/-- Scale by a power of ten, if the result is a double. -/
def scale (x : Finite) : Int → Option Finite
  | .ofNat e =>
    if e ≤ 308 then x.mul? (powerOfTen e) else if x.units = 0 then some x else none
  | .negSucc e => scaleDown x (e + 1)

/-- The double with these parts. -/
def toFloat? (negative : Bool) (significand : Nat) (exponent : Int) : Option Number :=
  (scale (Finite.ofNat significand) exponent).map fun x =>
    .float (if negative then x.neg else x)

/-- The number of a numeral without fraction and exponent whose digits fit 64 bits. -/
def ofWhole (negative : Bool) (n : Nat) : Number :=
  if !negative then .int n
  else if 0 < n ∧ n ≤ Nat.pow 2 63 then .int (-n)
  -- minus zero, or too small for 64 bits
  else .float (Finite.ofNat n).neg

/-- The number a numeral denotes. The text must follow the grammar. -/
def read? (s : List Char) : Option Number :=
  let (negative, s) := match s with
    | '-' :: rest => (true, rest)
    | _ => (false, s)
  let (whole, rest) := Decimal.splitDigits s
  let (n, left) := gather 0 whole
  match rest with
  -- digits that do not fit only count as powers of ten
  | [] => if left = [] then some (ofWhole negative n) else toFloat? negative n left.length
  | _ =>
    let (fraction, rest) := match rest with
      | '.' :: rest => Decimal.splitDigits rest
      | _ => ([], rest)
    -- the dropped digits of the fraction do not move the point
    let (n, dropped) := gather n fraction
    let point : Int := left.length - ((fraction.length : Int) - dropped.length)
    (Decimal.readExponent? rest).bind fun e => toFloat? negative n (point + e)

end Onboarding.Numeral
