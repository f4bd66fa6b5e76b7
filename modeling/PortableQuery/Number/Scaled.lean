import PortableQuery.Number.Digits
import PortableQuery.Number.Double

/-!
# Two ways to read a decimal

A decimal may be read as the double nearest to it. Or, faster, it is computed: as many of its digits
as fit 64 bits make an integer, and that is multiplied with a power of ten or divided by one. Every
step rounds, so the result may be another double than the nearest one.
-/

namespace PortableQuery

namespace FiniteDouble

/-- The magnitude is the quotient of this and `denominator`. -/
def numerator (x : FiniteDouble) : Nat := x.significand * 2 ^ x.exponent.toNat

/-- The magnitude is the quotient of `numerator` and this. -/
def denominator (x : FiniteDouble) : Nat := 2 ^ (-x.exponent).toNat

/-- The rounded product with a positive number, if it is finite. -/
def times? (x y : FiniteDouble) : Option FiniteDouble :=
  (Double.nearest x.negative (x.numerator * y.numerator) (x.denominator * y.denominator)).finite?

/-- The rounded quotient by a positive number, if it is finite. -/
def over? (x y : FiniteDouble) : Option FiniteDouble :=
  (Double.nearest x.negative (x.numerator * y.denominator) (x.denominator * y.numerator)).finite?

end FiniteDouble

/-- The number that `n` becomes with digits behind it, taken as long as 64 bits hold it, and the
digits that are left. -/
def Digits.absorb (n : Nat) : List Char → Nat × List Char
  | [] => (n, [])
  | c :: cs =>
    if 10 * n + Digits.digit c < 2 ^ 64 then absorb (10 * n + Digits.digit c) cs else (n, c :: cs)

namespace Double

/-- The power of ten, if it is finite. -/
def tenTo? (k : Nat) : Option FiniteDouble := (nearest false (10 ^ k) 1).finite?

/-- `± n · 10 ^ exponent`, step by step. The powers of ten from `10 ^ 0` to `10 ^ 308` are there; a
greater one makes every number but zero infinite, and what two of them do not divide is zero. -/
def scaled? (negative : Bool) (n : Nat) (exponent : Int) : Option FiniteDouble := do
  let x ← (nearest negative n 1).finite?
  if 0 ≤ exponent then
    if n = 0 then pure x
    else if exponent ≤ 308 then x.times? (← tenTo? exponent.toNat)
    else none
  else
    let k := (-exponent).toNat
    if k ≤ 308 then x.over? (← tenTo? k)
    else if k ≤ 616 then (← x.over? (← tenTo? 308)).over? (← tenTo? (k - 308))
    else pure (.zero negative)

end Double

/-- A way to read a decimal. -/
inductive NumberReading where
  /-- As the nearest double. -/
  | nearest
  /-- As an integer, scaled by a power of ten. -/
  | scaled
deriving DecidableEq, Repr

namespace NumberReading

/-- The double of a decimal by the digits before its point, those behind it and its exponent, if it
is finite. Digits that 64 bits do not hold are left out, on each side of the point. -/
def decimal? (negative : Bool) (whole fraction : List Char) (exponent : Int) :
    NumberReading → Option FiniteDouble
  | nearest =>
    (Double.ofScientific negative (Digits.value (whole ++ fraction))
      (exponent - fraction.length)).finite?
  | scaled =>
    let (n, wholeLeft) := Digits.absorb 0 whole
    let (n, fractionLeft) := Digits.absorb n fraction
    Double.scaled? negative n
      (exponent + wholeLeft.length - (fraction.length - fractionLeft.length))

end NumberReading

end PortableQuery
