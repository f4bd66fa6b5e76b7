import PortableQuery.Proofs.Calendar.Relaxed
import PortableQuery.Proofs.Lowering.Walk

set_option autoImplicit false

/-!
# Leap seconds that were read

A leap second is read as second 60 of a minute, and an offset is a whole number of minutes, so the
moment that is read ends a minute in UTC, too.
-/

namespace PortableQuery.CalendarText

theorem endsMinute_of_clock {hour minute second nano : Nat} {r : Fin 86400 × Fin 2000000000}
    (h : clock hour minute second nano = .ok r) :
    1000000000 ≤ r.2.val → r.1.val % 60 = 59 := by
  unfold clock at h
  by_cases hsecond : second = 60
  · simp only [hsecond, if_true] at h
    split at h
    · obtain rfl := Except.ok.inj h
      intro
      simp only
      omega
    · cases h
  · simp only [hsecond, if_false] at h
    split at h
    · next hrange =>
      obtain rfl := Except.ok.inj h
      intro hleap
      simp only at hleap
      omega
    · cases h

/-- A zone is ahead of UTC by a whole number of minutes. -/
theorem offset_mod {between : List Char → Except Error (List Char)} {cs : List Char}
    {r : Int × List Char} (h : offset between cs = .ok r) : r.1 % 60 = 0 := by
  unfold offset at h
  split at h
  case h_2 | h_3 =>
    cases h
    rfl
  case h_4 | h_5 | h_6 =>
    obtain ⟨hours, -, h⟩ := bind_eq_ok.mp h
    obtain ⟨cs, -, h⟩ := bind_eq_ok.mp h
    obtain ⟨minutes, -, h⟩ := bind_eq_ok.mp h
    simp only at h
    split at h
    · cases h
    · obtain rfl := pure_eq_ok.mp h
      simp only
      split <;> omega
  all_goals cases h

theorem relaxedZone_mod {cs : List Char} {r : Int × List Char} (h : relaxedZone cs = .ok r) :
    r.1 % 60 = 0 := by
  unfold relaxedZone at h
  split at h
  · cases h
    rfl
  · exact offset_mod h

theorem checkOffset_eq_ok {seconds offset : Int} (h : checkOffset seconds = .ok offset) :
    seconds = offset := by
  unfold checkOffset at h
  split at h
  · exact Except.ok.inj h
  · cases h

theorem ofLocal?_eq_some {date : Date} {second : Fin 86400} {nano : Fin 2000000000} {offset : Int}
    {t : Timestamp} (h : Timestamp.ofLocal? date second nano offset = some t) :
    (t.second.val : Int) = (second.val - offset) % 86400 ∧ t.nano = nano := by
  have hmoment {day? : Option Date} {total : Int}
      (h : (day?.bind fun day => some (Timestamp.mk day
        ⟨(total % 86400).toNat, by omega⟩ nano)) = some t) :
      (t.second.val : Int) = total % 86400 ∧ t.nano = nano := by
    obtain ⟨day, -, hday⟩ := Option.bind_eq_some_iff.mp h
    obtain rfl := Option.some.inj hday
    exact ⟨Int.toNat_of_nonneg (by omega), rfl⟩
  unfold Timestamp.ofLocal? at h
  dsimp only at h
  split at h
  · exact hmoment h
  · split at h
    · exact hmoment h
    · exact hmoment h

theorem endsMinute_of_ofLocal? {date : Date} {second : Fin 86400} {nano : Fin 2000000000}
    {offset : Int} {t : Timestamp}
    (h : inRange (Timestamp.ofLocal? date second nano offset) = .ok t) (hoffset : offset % 60 = 0)
    (hends : 1000000000 ≤ nano.val → second.val % 60 = 59) : t.EndsMinute := by
  cases hlocal : Timestamp.ofLocal? date second nano offset with
  | none =>
    rw [hlocal] at h
    cases h
  | some u =>
    rw [hlocal] at h
    obtain rfl : u = t := Except.ok.inj h
    obtain ⟨hsecond, hnano⟩ := ofLocal?_eq_some hlocal
    intro hleap
    rw [hnano] at hleap
    have hmod := hends hleap
    omega

/-- **A leap second that was read ends a minute.** -/
theorem endsMinute_of_timestamp {s : String} {t : Timestamp} (h : timestamp s = .ok t) :
    t.EndsMinute := by
  unfold timestamp at h
  split at h
  · cases h
  · simp only [bind_eq_ok] at h
    obtain ⟨_, -, _, -, _, -, _, -, _, -, _, -, _, -, _, -, _, -, _, -, _, -, _, -, _, -, _, hclock,
      _, hoffset, _, -, _, hcheck, hlocal⟩ := h
    rw [← checkOffset_eq_ok hcheck] at hlocal
    exact endsMinute_of_ofLocal? hlocal (offset_mod hoffset) (endsMinute_of_clock hclock)

theorem endsMinute_of_relaxedTimestamp {s : String} {t : Timestamp}
    (h : relaxedTimestamp s = .ok t) : t.EndsMinute := by
  unfold relaxedTimestamp at h
  simp only [bind_eq_ok] at h
  obtain ⟨_, -, _, -, _, -, _, -, _, -, _, -, _, -, _, -, _, hzone, _, -, _, -, _, hclock, _,
    hcheck, hlocal⟩ := h
  rw [← checkOffset_eq_ok hcheck] at hlocal
  exact endsMinute_of_ofLocal? hlocal (relaxedZone_mod hzone) (endsMinute_of_clock hclock)

end PortableQuery.CalendarText
