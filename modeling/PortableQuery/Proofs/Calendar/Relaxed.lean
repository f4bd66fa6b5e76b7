import PortableQuery.Proofs.Calendar.Reading

set_option autoImplicit false

/-!
# The relaxed grammar takes what is written

In the relaxed grammar a year may have a sign and any number of digits, so days and moments of every
year of the calendar are read back.
-/

namespace PortableQuery.CalendarText

open Digits

/-! ## Years -/

theorem trimStart_of_not_isBlank {c : Char} (h : Text.isBlank c = false) (cs : List Char) :
    Text.trimStart (c :: cs) = c :: cs := by
  rw [Text.trimStart, List.dropWhile_cons, h]
  rfl

theorem number_signed {width n : Nat} {ys : List Char} (h : Row width n ys) (hw : 0 < width)
    {rest : List Char} (hrest : ∀ c ∈ rest.head?, c.isDigit = false) :
    number 1 (ys ++ rest).length (ys ++ rest) = .ok (n, rest) := by
  have hwidth : width ≤ (ys ++ rest).length := by
    rw [List.length_append, h.length_eq]
    omega
  exact number_row h hw hwidth (.inr hrest)

/-- **A written year is read back.** -/
theorem year_text (y : Int) {rest : List Char} (hrest : ∀ c ∈ rest.head?, c.isDigit = false) :
    year ((Date.yearText y).toList ++ rest) = .ok (y, rest) := by
  by_cases hplain : IsPlainYear y
  · have hy : (y.natAbs : Int) = y := Int.natAbs_of_nonneg hplain.1
    rw [year_row (yearText_of_isPlain hplain), hy]
  · have hrow := row_padded_max 4 y.natAbs
    have hwidth : 0 < max 4 (Nat.toDigits 10 y.natAbs).length :=
      Nat.lt_of_lt_of_le (by decide) (Nat.le_max_left _ _)
    have hnumber := number_signed hrow hwidth hrest
    rw [Date.yearText, if_neg (show ¬ (0 ≤ y ∧ y ≤ 9999) from hplain), String.toList_append]
    by_cases hsign : y < 0
    · have hy : -(y.natAbs : Int) = y := by omega
      rw [if_pos hsign, show "-".toList = ['-'] from rfl, List.append_assoc, List.singleton_append,
        year, trimStart_of_not_isBlank (by decide)]
      simp only [hnumber, bind, Except.bind, pure, Except.pure, hy]
    · have hy : (y.natAbs : Int) = y := by omega
      rw [if_neg hsign, show "+".toList = ['+'] from rfl, List.append_assoc, List.singleton_append,
        year, trimStart_of_not_isBlank (by decide)]
      simp only [hnumber, bind, Except.bind, pure, Except.pure, hy]

/-! ## Days -/

theorem trimStart_dash (cs : List Char) : Text.trimStart ('-' :: cs) = '-' :: cs :=
  trimStart_of_not_isBlank (by decide) cs

theorem dateParts_text (d : Date) (rest : List Char) :
    dateParts Text.trimStart (d.text.toList ++ rest) = .ok ((d.year, d.month, d.day), rest) := by
  have hdash (cs : List Char) : ∀ c ∈ ('-' :: cs).head?, c.isDigit = false := by
    rintro c ⟨⟩
    rfl
  rw [d.toList_text]
  simp only [List.append_assoc, List.cons_append]
  simp only [dateParts, year_text d.year (hdash _), trimStart_dash, mark, if_true,
    small_row d.month_row d.month_mem.1 d.month_mem.2,
    small_row d.day_row d.day_bounds.1 d.day_bounds.2, bind, Except.bind, pure, Except.pure]

/-- **Every day is read back in the relaxed grammar.** -/
theorem relaxedDate_text (d : Date) : relaxedDate d.text = .ok d := by
  have hparts := dateParts_text d []
  rw [List.append_nil] at hparts
  rw [relaxedDate, hparts]
  simp only [bind, Except.bind, Text.trimStart, List.dropWhile_nil, done, inRange, Date.of?_self]

/-! ## Moments -/

/-- **Every moment is read back in the relaxed grammar**, a leap second inside a minute as the next
second. -/
theorem relaxedTimestamp_text (t : Timestamp) :
    relaxedTimestamp (t.text "Z") = .ok t.asWritten := by
  have hfraction := fraction_text t.writtenNano_lt ['Z'] (by simp)
  have hcolon (cs : List Char) : Text.trimStart (':' :: cs) = ':' :: cs :=
    trimStart_of_not_isBlank (by decide) cs
  have hzone : relaxedZone (Text.trimStart ['Z']) = .ok (0, []) := rfl
  have hdone : done (Text.trimStart []) = .ok () := rfl
  have hzero : checkOffset 0 = .ok 0 := rfl
  have hmoment := t.asWritten.ofLocal?_zero
  rw [t.date_asWritten] at hmoment
  have hsecond : t.writtenSecond ≤ 60 := by
    unfold Timestamp.writtenSecond
    split <;> omega
  have hhour : t.second.val / 3600 ≤ 23 := by
    have hlt := t.second.isLt
    omega
  rw [relaxedTimestamp, t.toList_text, show "Z".toList = ['Z'] from rfl]
  simp only [dateParts_text, separator, true_or, if_true, hcolon, mark,
    small_row t.hour_row (Nat.zero_le _) hhour,
    small_row t.minute_row (Nat.zero_le _) (Nat.le_of_lt_succ (Nat.mod_lt _ (by decide))),
    small_row t.second_row (Nat.zero_le _) hsecond, hfraction, hzone, hdone, clock_written, hzero,
    inRange, Date.of?_self, hmoment, bind, Except.bind]

end PortableQuery.CalendarText
