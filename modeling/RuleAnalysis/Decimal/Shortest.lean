import RuleAnalysis.Decimal.Binary64

namespace RuleAnalysis
namespace Binary64

/-!
# Shortest decimal digits

A binary number is written with the fewest decimal digits that read back as
the same number. Of the decimals of that length it takes the nearest one, and
of two equally near ones the one whose last digit is even.
-/

/-- Digits and a power of ten. -/
structure Decimal where
  digits : Nat
  exponent : Int
  deriving DecidableEq, Repr

/-- The numbers between which everything rounds to a positive number, over one denominator: the
lower end, the number, the upper end, the denominator. -/
structure Neighbourhood where
  low : Nat
  value : Nat
  high : Nat
  den : Nat
  closed : Bool
  deriving Repr

def neighbourhood (x : Binary64) : Neighbourhood :=
  let (num, den) := (⟨false, 1, x.exponent - 2⟩ : Binary64).fraction
  let m := x.significand
  let below := if m = Nat.pow 2 52 && minExponent < x.exponent then 4 * m - 1 else 4 * m - 2
  ⟨num * below, num * (4 * m), num * (4 * m + 2), den, m % 2 = 0⟩

namespace Neighbourhood

/-- Whether a multiple of a fraction lies in the neighbourhood. -/
def holds (n : Neighbourhood) (multiple num den : Nat) : Bool :=
  let point := multiple * num * n.den
  if n.closed then n.low * den ≤ point && point ≤ n.high * den
  else n.low * den < point && point < n.high * den

/-- The floor of the decimal logarithm. -/
def decimalExponent (n : Neighbourhood) : Int :=
  if n.den ≤ n.value then ((Nat.toDigits 10 (n.value / n.den)).length : Int) - 1
  else -((Nat.toDigits 10 ((n.den + n.value - 1) / n.value - 1)).length : Int)

/-- The multiple of a power of ten in the neighbourhood that is nearest to the number. -/
def onGrid? (n : Neighbourhood) (exponent : Int) : Option Decimal :=
  let (num, den) :=
    if exponent < 0 then (1, Nat.pow 10 (-exponent).toNat) else (Nat.pow 10 exponent.toNat, 1)
  let floor := n.value * den / (n.den * num)
  let rest := 2 * (n.value * den % (n.den * num))
  let upFirst := n.den * num < rest || (rest = n.den * num && floor % 2 = 1)
  let (near, far) := if upFirst then (floor + 1, floor) else (floor, floor + 1)
  if n.holds near num den then some ⟨near, exponent⟩
  else if n.holds far num den then some ⟨far, exponent⟩
  else none

end Neighbourhood

/-- The shortest decimal of a positive number; seventeen digits always suffice. -/
def shortest (x : Binary64) : Decimal :=
  let n := x.neighbourhood
  let top := n.decimalExponent
  ((List.range 17).findSome? fun (count : Nat) => n.onGrid? (top - count)).getD ⟨0, 0⟩

end Binary64
end RuleAnalysis
