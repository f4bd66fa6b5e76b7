import PortableQuery.Proofs.Calendar.Leap
import PortableQuery.Proofs.Document.Storable

set_option autoImplicit false

/-!
# Days and moments in documents

Both stand under the tag `$date`, and a text of ten bytes is taken for a day. That is right for the
years that are written with four digits. The day of any other year has a longer text, which is then
refused as a moment, and the text of a moment of such a year is refused for its sign.
-/

namespace PortableQuery

/-- The year of a day or of a moment. -/
def Value.year? : Value → Option Int
  | .date d => some d.year
  | .timestamp t => some t.date.year
  | _ => none

namespace Document

variable (scope : Scope)

/-- A text under the tag of days and moments. -/
def dateForm (s : String) : Json := .single "$date" (.string s)

theorem decode_dateForm (s : String) : decode scope (dateForm s) = decodeDate scope s := rfl

theorem decode_dateForm_day (d : Date) : decode scope (dateForm d.text) =
    if IsPlainYear d.year then .ok (.date d)
    else .error (scope.error (.badTimestamp .tooShort)) := by
  rw [decode_dateForm, decodeDate]
  by_cases h : IsPlainYear d.year
  · rw [if_pos ((CalendarText.utf8ByteSize_text d).mpr h), CalendarText.date_text h, if_pos h]
    rfl
  · rw [if_neg (mt (CalendarText.utf8ByteSize_text d).mp h), CalendarText.timestamp_dateText h,
      if_neg h]
    rfl

theorem decode_dateForm_moment (t : Timestamp) : decode scope (dateForm (t.text "Z")) =
    if IsPlainYear t.date.year then .ok (.timestamp t.asWritten)
    else .error (scope.error (.badTimestamp .invalid)) := by
  have hsize : ¬ (t.text "Z").utf8ByteSize = 10 := by
    have hlong := CalendarText.utf8ByteSize_timestampText t
    omega
  rw [decode_dateForm, decodeDate, if_neg hsize]
  by_cases h : IsPlainYear t.date.year
  · rw [CalendarText.timestamp_text h, if_pos h]
    rfl
  · rw [CalendarText.timestamp_text_of_not_isPlain h, if_neg h]
    rfl

/-- What is read under the tag is a day or a moment, and no leap second inside a minute. -/
inductive Temporal : Int → Value → Prop
  | date (d : Date) : Temporal d.year (.date d)
  | timestamp {t : Timestamp} (h : t.EndsMinute) : Temporal t.date.year (.timestamp t)

variable {scope} in
theorem temporal_of_decode {s : String} {v : Value} (h : decode scope (dateForm s) = .ok v) :
    ∃ year, Temporal year v := by
  have hor {α : Type} {e : CalendarText.Error → ConversionFault} {x : Except CalendarText.Error α} {a : α}
      (hx : orFault scope e x = .ok a) : x = .ok a := by
    cases x with
    | ok b => exact congrArg _ (Except.ok.inj hx)
    | error => cases hx
  rw [decode_dateForm, decodeDate] at h
  split at h
  · obtain ⟨d, -, rfl⟩ := map_eq_ok.mp h
    exact ⟨d.year, .date d⟩
  · obtain ⟨t, ht, rfl⟩ := map_eq_ok.mp h
    exact ⟨t.date.year, .timestamp (CalendarText.endsMinute_of_timestamp (hor ht))⟩

theorem Temporal.decode_encode {year : Int} {v : Value} (h : Temporal year v) (scope' : Scope) :
    ∃ j, encode scope v = .ok j ∧ (decode scope' j = .ok v ↔ IsPlainYear year) := by
  cases h with
  | date d =>
    refine ⟨dateForm d.text, rfl, ?_⟩
    rw [decode_dateForm_day]
    split
    · next hplain => exact iff_of_true rfl hplain
    · next hplain => exact iff_of_false nofun hplain
  | @timestamp t hends =>
    refine ⟨dateForm (t.text "Z"), rfl, ?_⟩
    rw [decode_dateForm_moment, Timestamp.asWritten_eq_self.mpr hends]
    split
    · next hplain => exact iff_of_true rfl hplain
    · next hplain => exact iff_of_false nofun hplain

/-- **Days are read back in the years with four digits, and in no other year. So are moments, but a
leap second inside a minute as the second that comes next.** What has been read from a text, however
it was spelled, is written in one way only, and is read back from that exactly if its year has four
digits. -/
theorem decode_encode_temporal (scope scope' : Scope) :
    (∀ d : Date, encode scope (.date d) = .ok (dateForm d.text) ∧
      decode scope' (dateForm d.text) = if IsPlainYear d.year then .ok (.date d)
        else .error (scope'.error (.badTimestamp .tooShort))) ∧
    (∀ t : Timestamp, encode scope (.timestamp t) = .ok (dateForm (t.text "Z")) ∧
      decode scope' (dateForm (t.text "Z")) =
        (if IsPlainYear t.date.year then .ok (.timestamp t.asWritten)
        else .error (scope'.error (.badTimestamp .invalid))) ∧
      (t.asWritten = t ↔ t.EndsMinute)) ∧
    ∀ s v, decode scope (dateForm s) = .ok v → ∃ year j, v.year? = some year ∧
      encode scope v = .ok j ∧ (decode scope' j = .ok v ↔ IsPlainYear year) := by
  refine ⟨fun d => ⟨rfl, decode_dateForm_day scope' d⟩,
    fun t => ⟨rfl, decode_dateForm_moment scope' t, Timestamp.asWritten_eq_self⟩, fun s v h => ?_⟩
  obtain ⟨year, hv⟩ := temporal_of_decode h
  obtain ⟨j, hj, hread⟩ := hv.decode_encode scope scope'
  refine ⟨year, j, ?_, hj, hread⟩
  cases hv <;> rfl

/-- The leap second at the end of the year 2016, and a quarter of a second. -/
def leapMoment : Timestamp where
  date := ⟨2016, 12, 31, by decide, by decide, by decide⟩
  second := 86399
  nano := 1250000000

theorem endsMinute_leapMoment : leapMoment.EndsMinute := by decide

/-- The leap second in another zone is read, written in UTC and read back. -/
theorem decode_encode_temporal_leapMoment :
    decode ⟨"Event", "at"⟩ (dateForm "2016-12-31t23:29:60.25-00:30") = .ok (.timestamp leapMoment) ∧
      ∃ j, encode ⟨"Event", "at"⟩ (.timestamp leapMoment) = .ok j ∧
        decode ⟨"Event", "at"⟩ j = .ok (.timestamp leapMoment) := by
  have hread : decode ⟨"Event", "at"⟩ (dateForm "2016-12-31t23:29:60.25-00:30") =
      .ok (.timestamp leapMoment) := by
    have htext : CalendarText.timestamp "2016-12-31t23:29:60.25-00:30" = .ok leapMoment := by
      decide +kernel
    rw [decode_dateForm, decodeDate, if_neg (by decide +kernel), htext]
    rfl
  obtain ⟨year, j, hyear, hj, hback⟩ := (decode_encode_temporal _ ⟨"Event", "at"⟩).2.2 _ _ hread
  obtain rfl : 2016 = year := Option.some.inj hyear
  exact ⟨hread, j, hj, hback.mpr (by decide)⟩

/-- The first day of the year 10000. -/
def farDay : Date := ⟨10000, 1, 1, by decide, by decide, by decide⟩

/-- Half an hour after midnight on that day. -/
def farMoment : Timestamp := ⟨farDay, 1800, 0⟩

/-- The first day of the year 10000 is written and not read back; nor is a moment of that day, which
in another zone still belongs to the year before and is read. -/
theorem decode_encode_farDay :
    encode ⟨"Event", "at"⟩ (.date farDay) = .ok (dateForm "+10000-01-01") ∧
    decode ⟨"Event", "at"⟩ (dateForm "+10000-01-01") =
      .error (.conversion "Event" "at" (.badTimestamp .tooShort)) ∧
    decode ⟨"Event", "at"⟩ (dateForm "9999-12-31T23:30:00-01:00") = .ok (.timestamp farMoment) ∧
    encode ⟨"Event", "at"⟩ (.timestamp farMoment) = .ok (dateForm "+10000-01-01T00:30:00Z") ∧
    decode ⟨"Event", "at"⟩ (dateForm "+10000-01-01T00:30:00Z") =
      .error (.conversion "Event" "at" (.badTimestamp .invalid)) := by
  have hday : farDay.text = "+10000-01-01" := by decide +kernel
  have hmoment : farMoment.text "Z" = "+10000-01-01T00:30:00Z" := by decide +kernel
  have hfar : ¬ IsPlainYear farMoment.date.year := by decide
  have hread : CalendarText.timestamp "9999-12-31T23:30:00-01:00" = .ok farMoment := by
    decide +kernel
  refine ⟨?_, ?_, ?_, ?_, ?_⟩
  · rw [← hday]
    rfl
  · rw [← hday, decode_dateForm_day, if_neg (show ¬ IsPlainYear farDay.year from hfar)]
    rfl
  · rw [decode_dateForm, decodeDate, if_neg (by decide +kernel), hread]
    rfl
  · rw [← hmoment]
    rfl
  · rw [← hmoment, decode_dateForm_moment, if_neg hfar]
    rfl

end Document

end PortableQuery
