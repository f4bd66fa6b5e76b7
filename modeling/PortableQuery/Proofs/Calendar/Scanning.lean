import PortableQuery.Calendar.Reading
import PortableQuery.Proofs.Number.Digits

set_option autoImplicit false

/-!
# Scanning rows of digits

The readers of dates and timestamps take a row of digits of the right length and leave what stands
behind it.
-/

namespace PortableQuery.CalendarText

open Digits

variable {width n : Nat} {cs rest : List Char}

theorem digits_row (h : Row width n cs) (rest : List Char) :
    digits width (cs ++ rest) = .ok (n, rest) := by
  have htake : (cs ++ rest).take width = cs := List.take_left' h.length_eq
  have hdrop : (cs ++ rest).drop width = rest := List.drop_left' h.length_eq
  have hall : cs.all Char.isDigit = true := List.all_eq_true.mpr h.isDigit
  simp only [digits, htake, hdrop, h.length_eq, hall, and_self, if_true, h.value_eq]

theorem digits_of_not_isDigit {c : Char} (hc : c.isDigit = false) (n : Nat) (cs : List Char) :
    digits (n + 1) (c :: cs) = .error .invalid := by
  rw [digits, List.take_succ_cons, List.all_cons, hc, if_neg]
  simp

/-- A row of digits, as many as may be asked for or the last ones. -/
theorem number_row (h : Row width n cs) {least most : Nat} (hleast : least ≤ width)
    (hmost : width ≤ most) (hrest : width = most ∨ ∀ c ∈ rest.head?, c.isDigit = false) :
    number least most (cs ++ rest) = .ok (n, rest) := by
  have hlen := h.length_eq
  have hds : ((cs ++ rest).take most).takeWhile Char.isDigit = cs := by
    rw [List.take_append, List.take_of_length_le (by omega), List.takeWhile_append_of_pos h.isDigit]
    rcases hrest with rfl | hrest
    · rw [hlen, Nat.sub_self, List.take_zero]
      simp
    · cases rest with
      | nil => simp
      | cons c rest =>
        have hc : c.isDigit = false := hrest c rfl
        cases most - cs.length <;> simp [hc]
  have hdrop : (cs ++ rest).drop cs.length = rest := List.drop_left
  rw [number, if_neg (by simp; omega), hds, if_neg (by omega), h.value_eq, hdrop]

/-! ## White space -/

theorem not_isBlank_of_isDigit {c : Char} (h : c.isDigit = true) : Text.isBlank c = false := by
  have hc : 48 ≤ c.toNat ∧ c.toNat ≤ 57 := Char.isDigit_iff_toNat.mp h
  rw [Bool.eq_false_iff]
  intro hblank
  simp only [Text.isBlank, Bool.or_eq_true, Bool.and_eq_true, decide_eq_true_eq,
    beq_iff_eq] at hblank
  omega

theorem trimStart_row (h : Row width n cs) (hw : 0 < width) (rest : List Char) :
    Text.trimStart (cs ++ rest) = cs ++ rest := by
  obtain ⟨c, ds, rfl, hc⟩ := h.exists_cons hw
  rw [Text.trimStart, List.cons_append, List.dropWhile_cons, not_isBlank_of_isDigit hc]
  rfl

theorem small_row (h : Row 2 n cs) {low high : Nat} (hlow : low ≤ n) (hhigh : n ≤ high)
    (rest : List Char) : small low high (cs ++ rest) = .ok (n, rest) := by
  rw [small, trimStart_row h (by decide), number_row h (by decide) (by decide) (.inl rfl)]
  exact if_pos ⟨hlow, hhigh⟩

theorem year_row (h : Row 4 n cs) (rest : List Char) :
    year (cs ++ rest) = .ok ((n : Int), rest) := by
  have hnumber : number 1 4 (cs ++ rest) = .ok (n, rest) :=
    number_row h (by decide) (by decide) (.inl rfl)
  rw [year, trimStart_row h (by decide)]
  obtain ⟨c, ds, rfl, hc⟩ := h.exists_cons (by decide)
  split
  · next heq =>
    cases heq
    cases hc
  · next heq =>
    cases heq
    cases hc
  · rw [hnumber]
    rfl

theorem dateParts_rows (gap : List Char → List Char) (hgap : ∀ cs, gap ('-' :: cs) = '-' :: cs)
    {y m d : Nat} {ys ms ds : List Char} (hy : Row 4 y ys) (hm : Row 2 m ms) (hd : Row 2 d ds)
    (hmonth : 1 ≤ m ∧ m ≤ 12) (hday : 1 ≤ d ∧ d ≤ 31) (rest : List Char) :
    dateParts gap (ys ++ '-' :: (ms ++ '-' :: (ds ++ rest))) = .ok (((y : Int), m, d), rest) := by
  simp only [dateParts, year_row hy, small_row hm hmonth.1 hmonth.2, small_row hd hday.1 hday.2,
    hgap, mark, if_true, bind, Except.bind, pure, Except.pure]

end PortableQuery.CalendarText
