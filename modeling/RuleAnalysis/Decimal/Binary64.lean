namespace RuleAnalysis

/-!
# Binary numbers of 64 bits

A finite number of the binary64 format is a sign, a significand below 2^53 and
an exponent of two, where the significand has its full 53 bits unless the
exponent is the smallest there is, -1074. Sums of digits and powers of ten are
rounded to the nearest such number in exact integer arithmetic; a tie goes to
the even significand.
-/

/-- The value is `significand * 2 ^ exponent`, negated if the sign says so. -/
structure Binary64 where
  negative : Bool
  significand : Nat
  exponent : Int
  deriving DecidableEq, Repr

namespace Binary64

/-- The smallest exponent, at which significands may be short. -/
def minExponent : Int := -1074

def maxExponent : Int := 971

def zero (negative : Bool) : Binary64 := ⟨negative, 0, minExponent⟩

def isZero (x : Binary64) : Bool := x.significand = 0

def neg (x : Binary64) : Binary64 := { x with negative := !x.negative }

/-- A fraction divided by a power of two, as a fraction. -/
def shift (num den : Nat) (exponent : Int) : Nat × Nat :=
  if exponent < 0 then (num * Nat.pow 2 (-exponent).toNat, den)
  else (num, den * Nat.pow 2 exponent.toNat)

/-- The exponent at which the integer part of a fraction has 53 bits, or the smallest one. -/
def exponentOf (num den : Nat) : Int :=
  let guess : Int := num.log2 - den.log2 - 52
  let (n, d) := shift num den guess
  max (if n / d < Nat.pow 2 52 then guess - 1 else guess) minExponent

/-- The nearest integer to a fraction; a tie goes to the even one. -/
def roundDiv (num den : Nat) : Nat :=
  let q := num / den
  let twice := 2 * (num % den)
  if den < twice || (twice = den && q % 2 = 1) then q + 1 else q

/-- The number nearest to a fraction, unless it lies beyond all numbers. -/
def ofFraction? (num den : Nat) : Option Binary64 :=
  if num = 0 then some (zero false)
  else
    let exponent := exponentOf num den
    let (n, d) := shift num den exponent
    let rounded := roundDiv n d
    let (significand, exponent) :=
      if rounded = Nat.pow 2 53 then (Nat.pow 2 52, exponent + 1) else (rounded, exponent)
    if maxExponent < exponent then none else some ⟨false, significand, exponent⟩

/-- The magnitude as a fraction. -/
def fraction (x : Binary64) : Nat × Nat :=
  if x.exponent < 0 then (x.significand, Nat.pow 2 (-x.exponent).toNat)
  else (x.significand * Nat.pow 2 x.exponent.toNat, 1)

/-- The product with a positive number, rounded. -/
def mul? (x y : Binary64) : Option Binary64 :=
  let (a, b) := x.fraction
  let (c, d) := y.fraction
  ofFraction? (a * c) (b * d)

/-- The quotient by a positive number, rounded. -/
def div? (x y : Binary64) : Option Binary64 :=
  let (a, b) := x.fraction
  let (c, d) := y.fraction
  ofFraction? (a * d) (b * c)

/-- The number nearest to a power of ten. -/
def powerOfTen? (n : Nat) : Option Binary64 :=
  ofFraction? (Nat.pow 10 n) 1

/-- Scales a number by a power of ten in one rounded step where the power is itself a number, and
down by 10^308 at a time where it is not. The fuel bounds the steps. -/
def scale? : Nat → Binary64 → Int → Option Binary64
  | 0, _, _ => none
  | fuel + 1, x, exponent =>
      if exponent.natAbs ≤ 308 then
        (powerOfTen? exponent.natAbs).bind (if 0 ≤ exponent then x.mul? else x.div?)
      else if x.isZero then some x
      else if 0 ≤ exponent then none
      else
        ((powerOfTen? 308).bind x.div?).bind fun smaller => scale? fuel smaller (exponent + 308)

/-- The number that digits and a power of ten stand for: the digits are rounded first and scaled
then. A magnitude beyond all numbers is refused. Four steps down exhaust every number. -/
def ofDecimal? (negative : Bool) (digits : Nat) (exponent : Int) : Option Binary64 := do
  let whole ← ofFraction? digits 1
  let magnitude ← scale? 8 whole exponent
  return { magnitude with negative := negative }

end Binary64

end RuleAnalysis
