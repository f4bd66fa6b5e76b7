import PortableQuery.Number.Digits

/-!
# Binary64 numbers

The values of the 64-bit binary floating-point format, all not-a-number patterns being one value. A
finite value is its sign and its *magnitude code*, the exponent field followed by the fraction field
read as one number, which orders finite magnitudes as numbers do.
-/

namespace PortableQuery

/-- How many finite magnitudes there are: 2047 exponents with `2 ^ 52` fractions each. -/
abbrev magnitudes : Nat := 2047 * 2 ^ 52

/-- A finite binary64 value, both zeros included. -/
structure FiniteDouble where
  negative : Bool
  magnitude : Fin magnitudes
deriving DecidableEq, Repr

/-- A binary64 value. -/
inductive Double where
  | nan
  | infinite (negative : Bool)
  | finite (value : FiniteDouble)
deriving DecidableEq, Repr

namespace FiniteDouble

/-- The exponent field. -/
def biased (x : FiniteDouble) : Nat := x.magnitude.val / 2 ^ 52

/-- The fraction field. -/
def fraction (x : FiniteDouble) : Nat := x.magnitude.val % 2 ^ 52

/-- The integer `m` of the magnitude `m · 2 ^ exponent`. -/
def significand (x : FiniteDouble) : Nat :=
  if x.biased = 0 then x.fraction else 2 ^ 52 + x.fraction

/-- The power of two of the magnitude. -/
def exponent (x : FiniteDouble) : Int := (max x.biased 1 : Nat) - 1075

/-- The zero of the given sign. -/
def zero (negative : Bool) : FiniteDouble := ⟨negative, ⟨0, by decide⟩⟩

end FiniteDouble

namespace Double

/-- The finite value behind a double, if it is finite. -/
def finite? : Double → Option FiniteDouble
  | finite x => some x
  | _ => none

/-- The quotient `a / b` rounded to the nearest integer, a tie going to the even one. -/
def roundDiv (a b : Nat) : Nat :=
  let m := a / b
  let r := a % b
  if b < 2 * r ∨ (2 * r = b ∧ m % 2 = 1) then m + 1 else m

/-- The largest `k` with `2 ^ k ≤ num / den`, for a positive quotient. -/
def log2Div (num den : Nat) : Int :=
  let k : Int := (num.log2 : Int) - den.log2
  if num * 2 ^ (-k).toNat < den * 2 ^ k.toNat then k - 1 else k

/-- The value nearest to `± num / den`: the significand has 53 bits, fewer where the exponent would
fall below `-1074`, and what rounds past the largest finite magnitude is infinite. -/
def nearest (negative : Bool) (num den : Nat) : Double :=
  if num = 0 then finite (.zero negative)
  else
    let q : Int := max (log2Div num den - 52) (-1074)
    let m := roundDiv (num * 2 ^ (-q).toNat) (den * 2 ^ q.toNat)
    let code := (q + 1074).toNat * 2 ^ 52 + m
    if h : code < magnitudes then finite ⟨negative, ⟨code, h⟩⟩ else infinite negative

/-- The value nearest to `± digits · 10 ^ exponent`. A number of at least `10 ^ 310` or below
`10 ^ -330` is settled by its size alone, so no power is computed that the answer does not need. -/
def ofScientific (negative : Bool) (digits : Nat) (exponent : Int) : Double :=
  if digits = 0 then finite (.zero negative)
  else
    let size : Int := (Nat.toDigits 10 digits).length + exponent
    if 310 < size then infinite negative
    else if size < -330 then finite (.zero negative)
    else nearest negative (digits * 10 ^ exponent.toNat) (10 ^ (-exponent).toNat)

/-- The value nearest to an integer. -/
def ofInt (i : Int) : Double := nearest (decide (i < 0)) i.natAbs 1

example : nearest false 1 1 = finite ⟨false, ⟨1023 * 2 ^ 52, by decide⟩⟩ := by decide +kernel
example : ofScientific true 15 (-1) = finite ⟨true, ⟨1023 * 2 ^ 52 + 2 ^ 51, by decide⟩⟩ := by
  decide +kernel

end Double

end PortableQuery
