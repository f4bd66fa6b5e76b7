/-!
# Decimal digits

* `Digits.value`: the number that a row of digits stands for;
* `Digits.padded`: a number in at least so many digits;
* `Digits.hexValue?`: the value of a hexadecimal digit.
-/

-- Powers are those of the core library, also in modules that see the powers of monoids.
attribute [instance (high), default_instance (high + 1)] instPowNat

namespace PortableQuery.Digits

/-- The digit's value; what is not a digit counts from `'0'` like a digit. -/
def digit (c : Char) : Nat := c.toNat - '0'.toNat

/-- The number that a row of digits stands for, most significant first. -/
def value (cs : List Char) : Nat := cs.foldl (fun n c => 10 * n + digit c) 0

/-- The digits of `n`, with zeros in front up to `width` of them. -/
def padded (width n : Nat) : String :=
  let ds := Nat.toDigits 10 n
  String.ofList (List.replicate (width - ds.length) '0' ++ ds)

/-- The value of a hexadecimal digit of either case. -/
def hexValue? (c : Char) : Option Nat :=
  if c.isDigit then some (digit c)
  else if 'a' ≤ c ∧ c ≤ 'f' then some (c.toNat - 'a'.toNat + 10)
  else if 'A' ≤ c ∧ c ≤ 'F' then some (c.toNat - 'A'.toNat + 10)
  else none

@[simp] theorem value_nil : value [] = 0 := rfl

example : padded 4 24 = "0024" := by decide
example : value ['0', '2', '4'] = 24 := by decide

end PortableQuery.Digits
