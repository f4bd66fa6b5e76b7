import PortableQuery.Number.Digits
import PortableQuery.Number.Double

/-!
# The shortest decimal that reads back

Among the decimals `c · 10 ^ j` that round to a given double, the ones with the fewest digits are
those on the coarsest grid, the largest `j`. Of two neighbours on that grid the nearer one is taken,
and of two equally near ones the even one. All comparisons are between integers: with
`x = m · 2 ^ q`, grid point `c` and quarter-step `w` of the significand are `c · gridUnit` and
`w · stepUnit` in one common unit.
-/

namespace PortableQuery

namespace FiniteDouble

/-- One step of the grid `10 ^ j`, in the common unit of `x` and that grid. -/
def gridUnit (x : FiniteDouble) (j : Int) : Nat := 10 ^ j.toNat * 2 ^ (2 - x.exponent).toNat

/-- A quarter of the last place of `x`, in the common unit of `x` and the grid `10 ^ j`. -/
def stepUnit (x : FiniteDouble) (j : Int) : Nat := 10 ^ (-j).toNat * 2 ^ (x.exponent - 2).toNat

/-- The quarter-steps from `x` down to the middle between it and the next smaller magnitude: two,
but one where the exponent drops there. -/
def lowerGap (x : FiniteDouble) : Nat := if x.fraction = 0 ∧ 1 < x.biased then 1 else 2

/-- The decimal `c · 10 ^ j` rounds to the magnitude of `x`; the two ends of the interval do so
exactly when the significand is even. -/
def readsBack (x : FiniteDouble) (j : Int) (c : Nat) : Bool :=
  let low := (4 * x.significand - x.lowerGap) * x.stepUnit j
  let high := (4 * x.significand + 2) * x.stepUnit j
  let point := c * x.gridUnit j
  if x.significand % 2 = 0 then low ≤ point && point ≤ high else low < point && point < high

/-- The grid point next below `x`. -/
def below (x : FiniteDouble) (j : Int) : Nat := 4 * x.significand * x.stepUnit j / x.gridUnit j

/-- The grid point of `10 ^ j` that reads back, the nearer one of two, the even one of a tie. -/
def onGrid? (x : FiniteDouble) (j : Int) : Option Nat :=
  let c := x.below j
  match x.readsBack j c, x.readsBack j (c + 1) with
  | true, true =>
    let rest := 2 * (4 * x.significand * x.stepUnit j % x.gridUnit j)
    if rest < x.gridUnit j ∨ (rest = x.gridUnit j ∧ c % 2 = 0) then some c else some (c + 1)
  | true, false => some c
  | false, true => some (c + 1)
  | false, false => none

/-- The first grid, from `10 ^ j` downwards, with a point that reads back. -/
def coarsest (x : FiniteDouble) : Nat → Int → Nat × Int
  | 0, j => (x.below j, j)
  | tries + 1, j =>
    match x.onGrid? j with
    | some c => (c, j)
    | none => coarsest x tries (j - 1)

/-- A power of ten above the magnitude by less than three places: `30103 / 100000` is a little more
than the decimal logarithm of two. -/
def topGrid (x : FiniteDouble) : Int :=
  (((x.significand.log2 : Int) + x.exponent) * 30103).fdiv 100000 + 2

/-- Drop trailing zeros of the digits into the power of ten. -/
def trimZeros : Nat → Nat → Int → Nat × Int
  | 0, c, j => (c, j)
  | fuel + 1, c, j => if c % 10 = 0 ∧ c ≠ 0 then trimZeros fuel (c / 10) (j + 1) else (c, j)

/-- **The shortest decimal that reads back**, as digits and a power of ten; zero is `(0, 0)`. Twenty
grids below the top one reach seventeen digits, which always suffice. -/
def shortest (x : FiniteDouble) : Nat × Int :=
  if x.significand = 0 then (0, 0)
  else
    let (c, j) := x.coarsest 20 x.topGrid
    trimZeros 20 c j

end FiniteDouble

/-! ## Laying the digits out -/

/-- How a number's digits are laid out. -/
structure NumberLayout where
  /-- The powers of ten of the leading digit that are written positionally; `none` for all. -/
  positional : Option (Int × Int)
  /-- What follows the digits of a number without a fraction. -/
  wholeMark : String

/-- JSON text: positional from `10 ^ -5` to below `10 ^ 16`, whole numbers with `.0`. -/
def jsonLayout : NumberLayout := ⟨some (-5, 15), ".0"⟩

/-- Plain decimal text: never an exponent, whole numbers as integers. -/
def plainLayout : NumberLayout := ⟨none, ""⟩

/-- Digits `ds`, to be read as `0.ds · 10 ^ point`, without an exponent. -/
def NumberLayout.place (l : NumberLayout) (ds : List Char) (point : Int) : String :=
  if point ≤ 0 then
    "0." ++ String.ofList (List.replicate (-point).toNat '0' ++ ds)
  else if ds.length ≤ point.toNat then
    String.ofList (ds ++ List.replicate (point.toNat - ds.length) '0') ++ l.wholeMark
  else
    String.ofList (ds.take point.toNat) ++ "." ++ String.ofList (ds.drop point.toNat)

/-- Digits `ds` with one digit before the point, and an exponent with its sign. -/
def scientific (ds : List Char) (point : Int) : String :=
  let e := point - 1
  let sign := if e < 0 then "-" else "+"
  let mantissa := match ds with
    | d :: r@(_ :: _) => String.ofList (d :: '.' :: r)
    | _ => String.ofList ds
  mantissa ++ "e" ++ sign ++ toString e.natAbs

namespace FiniteDouble

/-- The text of a finite double in a layout. -/
def text (l : NumberLayout) (x : FiniteDouble) : String :=
  let (c, j) := x.shortest
  let ds := Nat.toDigits 10 c
  let point : Int := if c = 0 then 1 else ds.length + j
  let body := match l.positional with
    | none => l.place ds point
    | some (low, high) =>
      if low ≤ point - 1 ∧ point - 1 ≤ high then l.place ds point else scientific ds point
  if x.negative then "-" ++ body else body

end FiniteDouble

end PortableQuery
