import PortableQuery.Number.Digits

/-!
# Decimal numbers

Fixed-point decimals: a sign, a coefficient of 96 bits and up to 28 places behind the point. The
number of places is kept, so `1.50` and `1.5` are two decimals. A zero that is made from its parts
has no sign; one that rounding has left keeps the sign of the number.
-/

namespace PortableQuery

-- numerals stand for coefficients and for numbers of places
instance instNeZeroCoefficients : @NeZero Nat Zero.ofOfNat0 (2 ^ 96) := ⟨by decide⟩
instance instNeZeroScales : @NeZero Nat Zero.ofOfNat0 29 := ⟨by decide⟩

/-- `± coefficient · 10 ^ -scale`. -/
structure Decimal where
  negative : Bool
  coefficient : Fin (2 ^ 96)
  scale : Fin 29
deriving DecidableEq, Repr

namespace Decimal

/-- The decimal with these parts; the sign of a zero is dropped. -/
def make (negative : Bool) (coefficient : Fin (2 ^ 96)) (scale : Fin 29) : Decimal where
  negative := negative && coefficient.val != 0
  coefficient := coefficient
  scale := scale

/-- An integer as a decimal, if it fits. -/
def ofInt? (i : Int) : Option Decimal :=
  if h : i.natAbs < 2 ^ 96 then some (make (decide (i < 0)) ⟨i.natAbs, h⟩ 0) else none

/-- The coefficient without its last `n` digits, a half being rounded up. -/
def roundedCoefficient (c : Fin (2 ^ 96)) : Nat → Fin (2 ^ 96)
  | 0 => c
  | n + 1 => ⟨(c.val / 10 ^ n + 5) / 10, by
      have := Nat.div_le_self c.val (10 ^ n)
      omega⟩

/-- The decimal with at most `places` places; a half is rounded away from zero. -/
def rounded (d : Decimal) (places : Fin 29) : Decimal :=
  if d.scale ≤ places then d
  else ⟨d.negative, roundedCoefficient d.coefficient (d.scale.val - places.val), places⟩

/-- The decimal in digits, as many behind the point as it has places. -/
def text (d : Decimal) : String :=
  let ds := (Digits.padded (d.scale.val + 1) d.coefficient.val).toList
  let whole := ds.length - d.scale.val
  let point := if d.scale.val = 0 then "" else "."
  let sign := if d.negative then "-" else ""
  sign ++ String.ofList (ds.take whole) ++ point ++ String.ofList (ds.drop whole)

@[simp] theorem make_coefficient (n : Bool) (c : Fin (2 ^ 96)) (s : Fin 29) :
    (make n c s).coefficient = c := rfl

@[simp] theorem make_scale (n : Bool) (c : Fin (2 ^ 96)) (s : Fin 29) :
    (make n c s).scale = s := rfl

/-- A decimal is made of its own parts, unless it is a zero with a sign. -/
theorem make_eq_self (d : Decimal) : make d.negative d.coefficient d.scale = d ↔
    (d.coefficient.val = 0 → d.negative = false) := by
  obtain ⟨n, c, s⟩ := d
  simp only [make, mk.injEq, and_true]
  cases n with
  | false => simp
  | true => simp

/-- A rounded decimal has no more places than asked for. -/
theorem scale_rounded_le (d : Decimal) (places : Fin 29) : (d.rounded places).scale ≤ places := by
  unfold rounded
  split
  · assumption
  · exact Fin.le_refl places

end Decimal

end PortableQuery
