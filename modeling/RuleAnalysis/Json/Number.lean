import RuleAnalysis.Decimal.Shortest

namespace RuleAnalysis

/-!
# Numbers of documents

A number is an integer that fits into 64 bits, signed or unsigned, or a
binary64 number. The literal decides: without a point or an exponent, and
within the range, it is an integer; `-0` and all others are binary64.
-/

inductive Number where
  | integer (n : Int)
  | real (x : Binary64)
  deriving DecidableEq, Repr

namespace Number

/-- The integer among the 64-bit signed ones, if it is one. -/
def signed? : Number → Option Int
  | integer n => if -(Nat.pow 2 63 : Nat) ≤ n && n < (Nat.pow 2 63 : Nat) then some n else none
  | real _ => none

/-- The integer among those of 32 bits, if it is one. -/
def signed32? : Number → Option Int
  | integer n => if -(Nat.pow 2 31 : Nat) ≤ n && n < (Nat.pow 2 31 : Nat) then some n else none
  | real _ => none

/-- The integer among the unsigned ones of 32 bits, if it is one. -/
def unsigned32? : Number → Option Nat
  | integer n => if 0 ≤ n && n < (Nat.pow 2 32 : Nat) then some n.toNat else none
  | real _ => none

/-- The number without the sign of a zero: `0.0` and `-0.0` are the same number, although they are
written differently. An integer is never the same number as a binary64 one. -/
def withUnsignedZero : Number → Number
  | integer n => integer n
  | real x => if x.isZero then real (.zero false) else real x

/-! ## Reading a literal -/

/-- The parts of a literal. Digits that no longer fit into 64 bits have been counted, not kept:
the value is `significand * 10 ^ exponent`. -/
structure Literal where
  negative : Bool
  significand : Nat
  exponent : Int
  integral : Bool

def digit? (c : Char) : Option Nat :=
  if '0' ≤ c && c ≤ '9' then some (c.toNat - '0'.toNat) else none

/-- Digits before the point. Once a digit does not fit it and all later ones only count. -/
def wholeDigits (significand dropped : Nat) : List Char → Nat × Nat
  | [] => (significand, dropped)
  | c :: rest =>
      let next := 10 * significand + (digit? c).getD 0
      if dropped = 0 && next < Nat.pow 2 64 then wholeDigits next 0 rest
      else wholeDigits significand (dropped + 1) rest

/-- Digits behind the point. Once a digit does not fit it and all later ones are dropped. -/
def fractionDigits (significand used : Nat) : List Char → Nat × Nat
  | [] => (significand, used)
  | c :: rest =>
      let next := 10 * significand + (digit? c).getD 0
      if next < Nat.pow 2 64 then fractionDigits next (used + 1) rest else (significand, used)

/-- Exponents are kept within 32 bits; `none` stands for a larger magnitude. -/
def exponentDigits? (exponent : Nat) : List Char → Option Nat
  | [] => some exponent
  | c :: rest =>
      let next := 10 * exponent + (digit? c).getD 0
      if next < Nat.pow 2 31 then exponentDigits? next rest else none

/-- The value of a literal given by its sign, its digits before and behind the point, and the sign
and digits of its exponent. A magnitude beyond all numbers is refused. -/
def ofLiteral? (negative : Bool) (whole : List Char) (fraction : Option (List Char))
    (exponent : Option (Bool × List Char)) : Option Number :=
  let (significand, dropped) := wholeDigits 0 0 whole
  match fraction, exponent with
  | none, none =>
      if dropped = 0 && !negative then some (.integer significand)
      else if dropped = 0 && significand ≠ 0 && significand ≤ Nat.pow 2 63 then
        some (.integer (-significand))
      else (Binary64.ofDecimal? negative significand dropped).map .real
  | _, _ =>
      let (significand, used) := fractionDigits significand 0 (fraction.getD [])
      let start : Int := dropped - used
      match exponent with
      | none => (Binary64.ofDecimal? negative significand start).map .real
      | some (down, digits) =>
          match exponentDigits? 0 digits with
          | some n =>
              (Binary64.ofDecimal? negative significand (if down then start - n else start + n)).map
                .real
          | none =>
              if significand = 0 || down then some (.real (.zero negative)) else none

/-! ## Writing -/

/-- Digits without the zeros at their end, and the place of the point relative to their begin. -/
def placed (d : Binary64.Decimal) : List Char × Int :=
  let digits := Nat.toDigits 10 d.digits
  ((digits.reverse.dropWhile (· = '0')).reverse, d.exponent + digits.length)

def zeros (n : Int) : List Char := List.replicate n.toNat '0'

/-- Positional notation with at least one decimal from 10^-5 up to below 10^16, exponents with an
explicit sign outside. -/
def magnitudeText (x : Binary64) : List Char :=
  if x.isZero then ['0', '.', '0']
  else
    let (digits, point) := placed x.shortest
    let length : Int := digits.length
    if -5 < point && point ≤ 0 then ['0', '.'] ++ zeros (-point) ++ digits
    else if 0 < point && point ≤ 16 then
      if length ≤ point then digits ++ zeros (point - length) ++ ['.', '0']
      else digits.take point.toNat ++ '.' :: digits.drop point.toNat
    else
      let mantissa :=
        match digits with
        | first :: second :: rest => first :: '.' :: second :: rest
        | short => short
      let power := point - 1
      mantissa ++ 'e' :: (if power < 0 then '-' else '+') :: Nat.toDigits 10 power.natAbs

def chars : Number → List Char
  | integer n => if n < 0 then '-' :: Nat.toDigits 10 n.natAbs else Nat.toDigits 10 n.natAbs
  | real x => if x.negative then '-' :: magnitudeText x else magnitudeText x

end Number

end RuleAnalysis
