import PortableQuery.Proofs.Calendar.Scanning

set_option autoImplicit false

/-!
# Dates and timestamps are read back

Days and moments of the years 0 to 9999 are written with four digits for the year, and what is
written is read as the same day or moment. In every other year a sign stands in front of the year:
the text of a day then has another length, and the text of a moment is refused.
-/

namespace PortableQuery

open Digits

/-! ## Years -/

/-- The year is written with four digits and without a sign. -/
def IsPlainYear (year : Int) : Prop := 0 ≤ year ∧ year ≤ 9999

instance (year : Int) : Decidable (IsPlainYear year) := inferInstanceAs (Decidable (_ ∧ _))

theorem yearText_of_isPlain {year : Int} (h : IsPlainYear year) :
    Row 4 year.natAbs (Date.yearText year).toList := by
  have hlt : year.natAbs < 10 ^ 4 := by
    have := h.1
    have := h.2
    omega
  rw [Date.yearText, if_pos (show 0 ≤ year ∧ year ≤ 9999 from h)]
  exact row_padded (by decide) hlt

theorem yearText_of_not_isPlain {year : Int} (h : ¬ IsPlainYear year)
    (hmem : firstYear ≤ year ∧ year ≤ lastYear) :
    ∃ sign width ys, (sign = '-' ∨ sign = '+') ∧ 4 ≤ width ∧ width ≤ 6 ∧
      Row width year.natAbs ys ∧ (Date.yearText year).toList = sign :: ys := by
  have hrow := row_padded_max 4 year.natAbs
  have hlt : year.natAbs < 10 ^ 6 := by
    obtain ⟨hfirst, hlast⟩ := hmem
    rw [firstYear] at hfirst
    rw [lastYear] at hlast
    omega
  have hlen : (Nat.toDigits 10 year.natAbs).length ≤ 6 :=
    (Nat.length_toDigits_le_iff (by decide) (by decide)).mpr hlt
  refine ⟨if year < 0 then '-' else '+', _, _, ?_, Nat.le_max_left _ _,
    Nat.max_le.mpr ⟨by decide, hlen⟩, hrow, ?_⟩
  · split <;> simp
  · rw [Date.yearText, if_neg (show ¬ (0 ≤ year ∧ year ≤ 9999) from h), String.toList_append]
    split <;> rfl

/-! ## Days -/

theorem daysInMonth_le (year : Int) (month : Nat) : daysInMonth year month ≤ 31 := by
  unfold daysInMonth
  split
  · split <;> decide
  · split <;> decide

namespace Date

theorem day_bounds (d : Date) : 1 ≤ d.day ∧ d.day ≤ 31 :=
  ⟨d.day_mem.1, Nat.le_trans d.day_mem.2 (daysInMonth_le _ _)⟩

theorem month_row (d : Date) : Row 2 d.month (padded 2 d.month).toList :=
  row_padded (by decide) (Nat.lt_of_le_of_lt d.month_mem.2 (by decide))

theorem day_row (d : Date) : Row 2 d.day (padded 2 d.day).toList :=
  row_padded (by decide) (Nat.lt_of_le_of_lt d.day_bounds.2 (by decide))

theorem toList_text (d : Date) : d.text.toList =
    (yearText d.year).toList ++ '-' :: ((padded 2 d.month).toList ++ '-' ::
      (padded 2 d.day).toList) := by
  simp [text, String.toList_append]

theorem length_text (d : Date) : d.text.toList.length = (yearText d.year).toList.length + 6 := by
  rw [toList_text, List.length_append, List.length_cons, List.length_append, List.length_cons,
    d.month_row.length_eq, d.day_row.length_eq]

theorem isAscii_text (d : Date) : Text.IsAscii d.text.toList := by
  have hyear : Text.IsAscii (yearText d.year).toList := by
    by_cases h : IsPlainYear d.year
    · exact (yearText_of_isPlain h).isAscii
    · obtain ⟨sign, _, ys, hsign, -, -, hys, heq⟩ := yearText_of_not_isPlain h d.year_mem
      rw [heq, Text.isAscii_cons]
      exact ⟨by rcases hsign with rfl | rfl <;> decide, hys.isAscii⟩
  rw [toList_text, Text.isAscii_append, Text.isAscii_cons, Text.isAscii_append, Text.isAscii_cons]
  exact ⟨hyear, by decide, d.month_row.isAscii, by decide, d.day_row.isAscii⟩

end Date

namespace CalendarText

/-- **A day of a plain year is read back.** -/
theorem date_text {d : Date} (h : IsPlainYear d.year) : date d.text = .ok d := by
  have hyear : (d.year.natAbs : Int) = d.year := Int.natAbs_of_nonneg h.1
  have hparts := dateParts_rows id (fun _ => rfl) (yearText_of_isPlain h) d.month_row
    d.day_row d.month_mem d.day_bounds []
  rw [List.append_nil, ← d.toList_text, hyear] at hparts
  rw [date, hparts]
  simp only [bind, Except.bind, done, inRange, Date.of?_self]

/-- **A text of the length of a day of a plain year is a day of a plain year.** -/
theorem utf8ByteSize_text (d : Date) : d.text.utf8ByteSize = 10 ↔ IsPlainYear d.year := by
  rw [Text.utf8ByteSize_eq_length d.isAscii_text, d.length_text]
  by_cases h : IsPlainYear d.year
  · rw [(yearText_of_isPlain h).length_eq]
    exact iff_of_true rfl h
  · obtain ⟨sign, width, ys, -, hwidth, -, hys, heq⟩ := yearText_of_not_isPlain h d.year_mem
    rw [heq, List.length_cons, hys.length_eq]
    exact iff_of_false (by omega) h

theorem timestamp_dateText {d : Date} (h : ¬ IsPlainYear d.year) :
    timestamp d.text = .error .tooShort := by
  have hsize : d.text.utf8ByteSize < 19 := by
    obtain ⟨sign, width, ys, -, -, hwidth, hys, heq⟩ := yearText_of_not_isPlain h d.year_mem
    rw [Text.utf8ByteSize_eq_length d.isAscii_text, d.length_text, heq, List.length_cons,
      hys.length_eq]
    omega
  rw [timestamp, if_pos hsize]
  rfl

end CalendarText

/-! ## Moments -/

namespace Timestamp

variable (t : Timestamp)

/-- The second of the minute as it is written, a leap second being second 60. -/
def writtenSecond : Nat := t.second.val % 60 + if 1000000000 ≤ t.nano.val then 1 else 0

def writtenNano : Nat := if 1000000000 ≤ t.nano.val then t.nano.val - 1000000000 else t.nano.val

theorem hour_row : Row 2 (t.second.val / 3600) (padded 2 (t.second.val / 3600)).toList :=
  row_padded (by decide) (by have := t.second.isLt; omega)

theorem minute_row : Row 2 (t.second.val / 60 % 60) (padded 2 (t.second.val / 60 % 60)).toList :=
  row_padded (by decide) (by omega)

theorem second_row : Row 2 t.writtenSecond (padded 2 t.writtenSecond).toList :=
  row_padded (by decide) (by unfold writtenSecond; split <;> omega)

theorem writtenNano_lt : t.writtenNano < 1000000000 := by
  have := t.nano.isLt
  unfold writtenNano
  split <;> omega

theorem toList_text (zone : String) : (t.text zone).toList =
    t.date.text.toList ++ 'T' :: ((padded 2 (t.second.val / 3600)).toList ++ ':' ::
      ((padded 2 (t.second.val / 60 % 60)).toList ++ ':' ::
        ((padded 2 t.writtenSecond).toList ++ ((fractionText t.writtenNano).toList ++
          zone.toList)))) := by
  simp [text, timeText, writtenSecond, writtenNano, String.toList_append]

theorem ofLocal?_zero : ofLocal? t.date t.second t.nano 0 = some t := by
  have hlt := t.second.isLt
  have hsecond : (⟨(((t.second.val : Int) - 0) % 86400).toNat, by omega⟩ : Fin 86400) = t.second :=
    Fin.ext (show (((t.second.val : Int) - 0) % 86400).toNat = t.second.val by omega)
  simp only [ofLocal?, hsecond]
  rw [if_neg (by omega), if_neg (by omega)]
  rfl

/-! ## Leap seconds -/

/-- If the moment lies in a leap second, that ends a minute. -/
def EndsMinute : Prop := 1000000000 ≤ t.nano.val → t.second.val % 60 = 59

instance : Decidable t.EndsMinute := inferInstanceAs (Decidable (_ → _))

theorem second_succ_lt {s : Fin 86400} (h : s.val % 60 ≠ 59) : s.val + 1 < 86400 := by
  have := s.isLt
  omega

/-- The moment that the text of the moment is read as: inside a minute, the second that comes after
a leap second stands for it. -/
def asWritten : Timestamp :=
  if h : 1000000000 ≤ t.nano.val ∧ t.second.val % 60 ≠ 59 then
    { t with
      second := ⟨t.second.val + 1, second_succ_lt h.2⟩
      nano := ⟨t.nano.val - 1000000000, Nat.lt_of_le_of_lt (Nat.sub_le _ _) t.nano.isLt⟩ }
  else t

theorem date_asWritten : t.asWritten.date = t.date := by
  unfold asWritten
  split <;> rfl

variable {t} in
theorem asWritten_eq_self : t.asWritten = t ↔ t.EndsMinute := by
  unfold asWritten EndsMinute
  split
  · next h =>
    refine iff_of_false (fun heq => ?_) fun hends => h.2 (hends h.1)
    have hsecond : t.second.val + 1 = t.second.val := congrArg (·.second.val) heq
    omega
  · next h => exact iff_of_true rfl fun hleap => Decidable.of_not_not fun hmod => h ⟨hleap, hmod⟩

theorem endsMinute_asWritten : t.asWritten.EndsMinute := by
  unfold asWritten
  split
  · next h =>
    have hlt := t.nano.isLt
    intro hleap
    exact absurd (show 1000000000 ≤ t.nano.val - 1000000000 from hleap) (by omega)
  · next h => exact fun hleap => Decidable.of_not_not fun hmod => h ⟨hleap, hmod⟩

end Timestamp

namespace CalendarText

theorem clock_written (t : Timestamp) : clock (t.second.val / 3600) (t.second.val / 60 % 60)
    t.writtenSecond t.writtenNano = .ok (t.asWritten.second, t.asWritten.nano) := by
  have hsecond := t.second.isLt
  have hnano := t.nano.isLt
  by_cases h : 1000000000 ≤ t.nano.val
  · have hn : t.writtenNano = t.nano.val - 1000000000 := if_pos h
    by_cases hmod : t.second.val % 60 = 59
    -- a leap second that ends a minute is written as second 60
    · have hs : t.writtenSecond = 60 := by rw [Timestamp.writtenSecond, hmod, if_pos h]
      rw [Timestamp.asWritten_eq_self.mpr fun _ => hmod]
      simp only [clock, hs, hn, if_true]
      rw [dif_pos (by omega)]
      simp only [Except.ok.injEq, Prod.mk.injEq, Fin.ext_iff]
      omega
    · have hs : t.writtenSecond = t.second.val % 60 + 1 := by rw [Timestamp.writtenSecond, if_pos h]
      have hne : ¬ t.second.val % 60 + 1 = 60 := by omega
      rw [Timestamp.asWritten, dif_pos ⟨h, hmod⟩]
      simp only [clock, hs, hn, hne, if_false]
      rw [dif_pos (by omega)]
      simp only [Except.ok.injEq, Prod.mk.injEq, Fin.ext_iff]
      omega
  · rw [Timestamp.asWritten_eq_self.mpr fun hleap => absurd hleap h]
    have hs : t.writtenSecond = t.second.val % 60 := by rw [Timestamp.writtenSecond, if_neg h]; rfl
    have hn : t.writtenNano = t.nano.val := if_neg h
    have hne : ¬ t.second.val % 60 = 60 := by omega
    simp only [clock, hs, hn, hne, if_false]
    rw [dif_pos (by omega)]
    simp only [Except.ok.injEq, Prod.mk.injEq, Fin.ext_iff]
    omega

theorem nanoseconds_row {width n : Nat} {cs : List Char} (h : Row width n cs) (hpos : 0 < width)
    (hwidth : width ≤ 9) {rest : List Char} (hrest : ∀ c ∈ rest.head?, c.isDigit = false) :
    nanoseconds (cs ++ rest) = .ok (n * 10 ^ (9 - width), rest) := by
  have hused : (cs ++ rest).length - rest.length = width := by
    rw [List.length_append, Nat.add_sub_cancel, h.length_eq]
  have hdrop : rest.dropWhile Char.isDigit = rest := by
    cases rest with
    | nil => rfl
    | cons c rest => rw [List.dropWhile_cons, hrest c rfl]; rfl
  rw [nanoseconds, number_row h hpos hwidth (.inr hrest)]
  simp only [bind, Except.bind, pure, Except.pure, hused, hdrop]

/-- **A fraction is read as it is written.** -/
theorem fraction_text {n : Nat} (h : n < 1000000000) (rest : List Char)
    (hrest : ∀ c ∈ rest.head?, c ≠ '.' ∧ c.isDigit = false) :
    fraction ((Timestamp.fractionText n).toList ++ rest) = .ok (n, rest) := by
  have hrow {width k : Nat} (hpos : 0 < width) (hwidth : width ≤ 9) (hk : k < 10 ^ width) :
      fraction (("." ++ padded width k).toList ++ rest) = .ok (k * 10 ^ (9 - width), rest) := by
    have hpoint : fraction ('.' :: ((padded width k).toList ++ rest)) =
        nanoseconds ((padded width k).toList ++ rest) := rfl
    rw [String.toList_append, List.append_assoc, show ".".toList = ['.'] from rfl,
      List.singleton_append, hpoint]
    exact nanoseconds_row (row_padded hpos hk) hpos hwidth fun c hc => (hrest c hc).2
  unfold Timestamp.fractionText
  split
  · next hzero =>
    subst hzero
    rw [show "".toList ++ rest = rest from rfl]
    unfold fraction
    split
    · exact absurd rfl (hrest '.' rfl).1
    · rfl
  · split
    · rw [hrow (by decide) (by decide) (by omega)]
      congr 2
      omega
    · split
      · rw [hrow (by decide) (by decide) (by omega)]
        congr 2
        omega
      · rw [hrow (by decide) (by decide) h, Nat.sub_self, Nat.pow_zero, Nat.mul_one]

theorem utf8ByteSize_timestampText (t : Timestamp) : 20 ≤ (t.text "Z").utf8ByteSize := by
  have hyear : 4 ≤ (Date.yearText t.date.year).toList.length := by
    by_cases h : IsPlainYear t.date.year
    · exact Nat.le_of_eq (yearText_of_isPlain h).length_eq.symm
    · obtain ⟨sign, width, ys, -, hwidth, -, hys, heq⟩ := yearText_of_not_isPlain h t.date.year_mem
      rw [heq, List.length_cons, hys.length_eq]
      omega
  refine Nat.le_trans ?_ (Text.length_le_utf8ByteSize _)
  simp only [t.toList_text, List.length_append, List.length_cons, t.date.length_text,
    t.hour_row.length_eq, t.minute_row.length_eq, t.second_row.length_eq]
  rw [show "Z".toList.length = 1 from rfl]
  omega

theorem not_tooShort (t : Timestamp) : ¬ (t.text "Z").utf8ByteSize < 19 := by
  have hsize := utf8ByteSize_timestampText t
  omega

/-- **A moment of a plain year is read back**, a leap second inside a minute as the next second. -/
theorem timestamp_text {t : Timestamp} (h : IsPlainYear t.date.year) :
    timestamp (t.text "Z") = .ok t.asWritten := by
  have hyear : (t.date.year.natAbs : Int) = t.date.year := Int.natAbs_of_nonneg h.1
  have hfraction := fraction_text t.writtenNano_lt ['Z'] (by simp)
  have hzone (between : List Char → Except Error (List Char)) :
      offset between ['Z'] = .ok (0, []) := rfl
  have hzero : checkOffset 0 = .ok 0 := rfl
  have hmoment := t.asWritten.ofLocal?_zero
  rw [t.date_asWritten] at hmoment
  rw [timestamp, if_neg (not_tooShort t), t.toList_text, t.date.toList_text,
    show "Z".toList = ['Z'] from rfl]
  simp only [List.append_assoc, List.cons_append, digits_row (yearText_of_isPlain h),
    digits_row t.date.month_row, digits_row t.date.day_row, digits_row t.hour_row,
    digits_row t.minute_row, digits_row t.second_row, hfraction, clock_written, hzone, hzero,
    fixedMark, separator, done, bind, Except.bind, if_true, true_or, hyear, Date.of?_self,
    inRange, hmoment]

/-- **No moment of a year with a sign is read back.** -/
theorem timestamp_text_of_not_isPlain {t : Timestamp} (h : ¬ IsPlainYear t.date.year) :
    timestamp (t.text "Z") = .error .invalid := by
  obtain ⟨sign, width, ys, hsign, -, -, -, heq⟩ := yearText_of_not_isPlain h t.date.year_mem
  have hdigit : sign.isDigit = false := by rcases hsign with rfl | rfl <;> rfl
  rw [timestamp, if_neg (not_tooShort t), t.toList_text, t.date.toList_text, heq]
  simp only [List.cons_append, digits_of_not_isDigit hdigit, bind, Except.bind]

end CalendarText

end PortableQuery
