import Mathlib.Tactic.IntervalCases
import PortableQuery.Number.Digits
import PortableQuery.Proofs.Text.Ascii

set_option autoImplicit false

/-!
# Rows of digits

What is known of a number in digits is how many there are, that they are digits, and their value;
every reader of numbers needs just that.
-/

namespace PortableQuery.Digits

variable {width n : Nat} {cs ds : List Char}

/-! ## Values -/

/-- **The digits of a number have its value.** -/
theorem value_toDigits (n : Nat) : value (Nat.toDigits 10 n) = n := Nat.ofDigitChars_ten_toDigits

theorem isDigit_of_mem_toDigits {c : Char} (h : c ∈ Nat.toDigits 10 n) : c.isDigit = true :=
  Nat.isDigit_of_mem_toDigits (by decide) (by decide) h

theorem toList_toString (n : Nat) : (toString n).toList = Nat.toDigits 10 n := Nat.toList_repr

theorem isDigit_of_mem_toString {c : Char} (h : c ∈ (toString n).toList) : c.isDigit = true :=
  isDigit_of_mem_toDigits (toList_toString n ▸ h)

theorem value_toString (n : Nat) : value (toString n).toList = n :=
  (congrArg value (toList_toString n)).trans (value_toDigits n)

theorem head?_toDigits_ne_zero (hn : 0 < n) : (Nat.toDigits 10 n).head? ≠ some '0' := by
  induction n using Nat.strongRecOn with | ind n ih =>
  by_cases hsmall : n < 10
  · interval_cases n <;> decide
  · have ih := ih (n / 10) (by omega) (by omega)
    rw [Nat.toDigits_of_base_le (by decide) (by omega)]
    cases hds : Nat.toDigits 10 (n / 10) with
    | nil => exact absurd hds Nat.toDigits_ne_nil
    | cons c cs =>
      rw [hds] at ih
      exact ih

theorem toString_ne_empty (n : Nat) : toString n ≠ "" := by
  intro h
  have hl := toList_toString n
  rw [h] at hl
  exact Nat.toDigits_ne_nil hl.symm

theorem value_append (cs ds : List Char) :
    value (cs ++ ds) = value cs * 10 ^ ds.length + value ds := by
  have h : value (cs ++ ds) = Nat.ofDigitChars 10 ds (value cs) := Nat.ofDigitChars_append 0
  rw [h, Nat.ofDigitChars_eq_ofDigitChars_zero, Nat.mul_comm]
  rfl

theorem value_cons (c : Char) (cs : List Char) :
    value (c :: cs) = digit c * 10 ^ cs.length + value cs := by
  rw [← List.singleton_append, value_append]
  simp [value]

theorem shift_digit (n : Nat) (x : Char) (ds : List Char) :
    n * 10 ^ (x :: ds).length + value (x :: ds) =
      (10 * n + digit x) * 10 ^ ds.length + value ds := by
  rw [value_cons, List.length_cons, Nat.pow_succ', Nat.add_mul, ← Nat.mul_assoc, Nat.mul_comm n 10,
    Nat.add_assoc]

theorem le_shift (n : Nat) (ds : List Char) : n ≤ n * 10 ^ ds.length + value ds :=
  Nat.le_add_right_of_le (Nat.le_mul_of_pos_right n (Nat.pow_pos (by decide)))

theorem value_replicate_zero (k : Nat) : value (List.replicate k '0') = 0 :=
  Nat.ofDigitChars_replicate_zero

/-! ## Rows -/

/-- The characters are `width` digits, and their value is `n`. -/
structure Row (width n : Nat) (cs : List Char) : Prop where
  length_eq : cs.length = width
  isDigit : ∀ c ∈ cs, c.isDigit = true
  value_eq : value cs = n

namespace Row

theorem isAscii (h : Row width n cs) : Text.IsAscii cs := Text.isAscii_of_isDigit h.isDigit

theorem exists_cons (h : Row width n cs) (hw : 0 < width) :
    ∃ c ds, cs = c :: ds ∧ c.isDigit = true := by
  cases cs with
  | nil => exact absurd h.length_eq (Nat.ne_of_lt hw)
  | cons c ds => exact ⟨c, ds, rfl, h.isDigit c List.mem_cons_self⟩

end Row

theorem row_padded_max (width n : Nat) :
    Row (max width (Nat.toDigits 10 n).length) n (padded width n).toList := by
  have hl : (padded width n).toList =
      List.replicate (width - (Nat.toDigits 10 n).length) '0' ++ Nat.toDigits 10 n :=
    String.toList_ofList
  refine ⟨?_, fun c hc => ?_, ?_⟩
  · rw [hl, List.length_append, List.length_replicate]
    omega
  · rcases List.mem_append.mp (hl ▸ hc) with hc | hc
    · rw [List.eq_of_mem_replicate hc]
      rfl
    · exact isDigit_of_mem_toDigits hc
  · rw [hl, value_append, value_replicate_zero, value_toDigits, Nat.zero_mul, Nat.zero_add]

/-- **A number that fits into a width fills it.** -/
theorem row_padded (hw : 0 < width) (h : n < 10 ^ width) : Row width n (padded width n).toList := by
  have hlen : (Nat.toDigits 10 n).length ≤ width :=
    (Nat.length_toDigits_le_iff (by decide) hw).mpr h
  have hrow := row_padded_max width n
  rwa [Nat.max_eq_left hlen] at hrow

end PortableQuery.Digits
