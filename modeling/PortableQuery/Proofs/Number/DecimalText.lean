import PortableQuery.Number.DecimalText
import PortableQuery.Proofs.Number.Digits

set_option autoImplicit false

/-!
# Decimals are read back

A written decimal has a coefficient of 96 bits and at most 28 places, so no digit of it is rounded
away. Its places survive; the sign of a zero does not.
-/

namespace PortableQuery

open Digits

namespace Decimal

theorem exists_text (d : Decimal) : ∃ w ws ps, (∀ c ∈ w :: ws ++ ps, c.isDigit = true) ∧
    value (w :: ws ++ ps) = d.coefficient.val ∧ ps.length = d.scale.val ∧
    d.text.toList = (if d.negative then ['-'] else []) ++
      (w :: ws ++ if d.scale.val = 0 then [] else '.' :: ps) := by
  have hrow := row_padded_max (d.scale.val + 1) d.coefficient.val
  generalize hds : (padded (d.scale.val + 1) d.coefficient.val).toList = ds at hrow
  have hlen : d.scale.val + 1 ≤ ds.length := hrow.length_eq ▸ Nat.le_max_left _ _
  have hps : (ds.drop (ds.length - d.scale.val)).length = d.scale.val := by
    rw [List.length_drop]
    omega
  obtain ⟨w, ws, hws⟩ : ∃ w ws, ds.take (ds.length - d.scale.val) = w :: ws := by
    refine List.exists_cons_of_length_pos ?_
    rw [List.length_take]
    omega
  have hsplit : w :: ws ++ ds.drop (ds.length - d.scale.val) = ds := by
    rw [← hws, List.take_append_drop]
  refine ⟨w, ws, ds.drop (ds.length - d.scale.val), ?_, ?_, hps, ?_⟩
  · rw [hsplit]
    exact hrow.isDigit
  · rw [hsplit]
    exact hrow.value_eq
  · simp only [text, hds, String.toList_append, String.toList_ofList, hws]
    by_cases hs : d.scale.val = 0
    · cases d.negative <;> simp [hs]
    · cases d.negative <;> simp [hs]

end Decimal

namespace DecimalText

/-! ## Reading digits -/

namespace Progress

variable (negative : Bool)

theorem step_whole {x : Char} (hx : x.isDigit = true) (cs : List Char) (seen : Bool)
    {c : Fin (2 ^ 96)} {s : Fin 29} (h : 10 * c.val + digit x < 2 ^ 96) :
    step negative ⟨c, s, false, seen⟩ x cs =
      .more ⟨⟨10 * c.val + digit x, h⟩, s, false, true⟩ := by
  rw [step, if_pos hx, dif_pos h]
  rfl

theorem step_point (cs : List Char) (c : Fin (2 ^ 96)) (s : Fin 29) (seen : Bool) :
    step negative ⟨c, s, false, seen⟩ '.' cs = .more ⟨c, s, true, seen⟩ := rfl

/-- A digit behind the point counts if the digits behind it have places, too. -/
theorem step_place {x : Char} (hx : x.isDigit = true) {cs : List Char} {c : Fin (2 ^ 96)}
    {s : Fin 29} (h : 10 * c.val + digit x < 2 ^ 96) (hs : s.val + 1 + cs.length < 29) :
    step negative ⟨c, s, true, true⟩ x cs =
      .more ⟨⟨10 * c.val + digit x, h⟩, ⟨s.val + 1, by omega⟩, true, true⟩ := by
  have hlast : s.val + 1 < 29 := by omega
  -- rounding starts behind the twenty-eighth place, and there is no digit behind that
  simp only [step, if_pos hx, dif_pos h, dif_pos hlast, if_true]
  cases cs with
  | nil => rfl
  | cons d cs =>
    have hne : (⟨s.val + 1, hlast⟩ : Fin 29) ≠ 28 := by
      intro heq
      have hval : s.val + 1 = 28 := congrArg Fin.val heq
      rw [List.length_cons] at hs
      omega
    simp only [hne, false_and, if_false]

theorem run_whole {ds : List Char} (hds : ∀ x ∈ ds, x.isDigit = true) (rest : List Char)
    {c : Fin (2 ^ 96)} {s : Fin 29} (h : c.val * 10 ^ ds.length + value ds < 2 ^ 96) :
    run negative ⟨c, s, false, true⟩ (ds ++ rest) =
      run negative ⟨⟨c.val * 10 ^ ds.length + value ds, h⟩, s, false, true⟩ rest := by
  induction ds generalizing c with
  | nil => simp only [List.nil_append, List.length_nil, Nat.pow_zero, Nat.mul_one, value_nil,
      Nat.add_zero]
  | cons x ds ih =>
    rw [List.forall_mem_cons] at hds
    have hfits := h
    rw [shift_digit] at hfits
    -- what is read so far is not larger than the whole number, which fits
    have hnext : 10 * c.val + digit x < 2 ^ 96 := Nat.lt_of_le_of_lt (le_shift _ ds) hfits
    rw [List.cons_append, run, step_whole negative hds.1 _ _ hnext]
    simp only [ih (c := ⟨10 * c.val + digit x, hnext⟩) hds.2 hfits, shift_digit]

theorem run_places {ds : List Char} (hds : ∀ x ∈ ds, x.isDigit = true) {c : Fin (2 ^ 96)}
    {s : Fin 29} (hs : s.val + ds.length < 29) (h : c.val * 10 ^ ds.length + value ds < 2 ^ 96) :
    run negative ⟨c, s, true, true⟩ ds =
      .ok (.make negative ⟨c.val * 10 ^ ds.length + value ds, h⟩ ⟨s.val + ds.length, hs⟩) := by
  induction ds generalizing c s with
  | nil => simp only [run, finish, if_true, List.length_nil, Nat.pow_zero, Nat.mul_one, value_nil,
      Nat.add_zero]
  | cons x ds ih =>
    rw [List.forall_mem_cons] at hds
    have hfits := h
    rw [shift_digit] at hfits
    have hnext : 10 * c.val + digit x < 2 ^ 96 := Nat.lt_of_le_of_lt (le_shift _ ds) hfits
    have hlen : s.val + (x :: ds).length = s.val + 1 + ds.length := by
      rw [List.length_cons]
      omega
    have hplaces : s.val + 1 + ds.length < 29 := hlen ▸ hs
    rw [run, step_place negative hds.1 hnext hplaces]
    simp only [ih (c := ⟨10 * c.val + digit x, hnext⟩) (s := ⟨s.val + 1, by omega⟩) hds.2 hplaces
      hfits, shift_digit, hlen]

theorem run_start {w : Char} {ws : List Char} (hds : ∀ x ∈ w :: ws, x.isDigit = true)
    (rest : List Char) (h : value (w :: ws) < 2 ^ 96) :
    start.run negative (w :: ws ++ rest) =
      run negative ⟨⟨value (w :: ws), h⟩, 0, false, true⟩ rest := by
  rw [List.forall_mem_cons] at hds
  have hvalue : (10 * 0 + digit w) * 10 ^ ws.length + value ws = value (w :: ws) := by
    rw [value_cons, Nat.mul_zero, Nat.zero_add]
  have hfirst : 10 * 0 + digit w < 2 ^ 96 := Nat.lt_of_le_of_lt (le_shift _ ws) (hvalue ▸ h)
  have hstep : start.step negative w (ws ++ rest) =
      .more ⟨⟨10 * 0 + digit w, hfirst⟩, 0, false, true⟩ := step_whole negative hds.1 _ false hfirst
  rw [List.cons_append, run, hstep]
  simp only [run_whole negative (c := ⟨10 * 0 + digit w, hfirst⟩) hds.2 rest (hvalue ▸ h), hvalue]

/-- **A whole number with its places is read, as there are no more of them than fit.** -/
theorem run_number {w : Char} {ws ps : List Char} (hds : ∀ x ∈ w :: ws ++ ps, x.isDigit = true)
    {c : Fin (2 ^ 96)} (hc : value (w :: ws ++ ps) = c.val) {s : Fin 29} (hs : ps.length = s.val) :
    start.run negative (w :: ws ++ if s.val = 0 then [] else '.' :: ps) =
      .ok (.make negative c s) := by
  obtain ⟨hwhole, hplaces⟩ := List.forall_mem_append.mp hds
  rw [value_append] at hc
  have hfits : value (w :: ws) * 10 ^ ps.length + value ps < 2 ^ 96 := hc ▸ c.isLt
  have hlt : value (w :: ws) < 2 ^ 96 := Nat.lt_of_le_of_lt (le_shift _ ps) hfits
  obtain rfl : ⟨_, hfits⟩ = c := Fin.ext hc
  rw [run_start negative hwhole _ hlt]
  by_cases hzero : s.val = 0
  · obtain rfl : ps = [] := List.eq_nil_of_length_eq_zero (hs.trans hzero)
    obtain rfl : s = 0 := Fin.ext hzero
    simp [run, finish]
  · have hlen : (0 : Fin 29).val + ps.length = s.val := (Nat.zero_add _).trans hs
    rw [if_neg hzero, run, step_point]
    simp only [run_places negative (c := ⟨value (w :: ws), hlt⟩) hplaces (hlen ▸ s.isLt) hfits,
      hlen]

end Progress

/-! ## Reading what is written -/

theorem plain_of_isDigit {c : Char} (hc : c.isDigit = true) (cs : List Char) :
    plain (c :: cs) = Progress.start.run false (c :: cs) := by
  rw [plain]
  · exact List.cons_ne_nil _ _
  · rintro r ⟨⟩
    cases hc
  · rintro r ⟨⟩
    cases hc

theorem any_isExponentMark_of_isDigit {ds : List Char} (h : ∀ c ∈ ds, c.isDigit = true) :
    ds.any isExponentMark = false := by
  rw [List.any_eq_false]
  intro c hc hmark
  have hdigit := h c hc
  simp only [isExponentMark, Bool.or_eq_true, decide_eq_true_eq] at hmark
  rcases hmark with rfl | rfl <;> cases hdigit

theorem any_isExponentMark_text (d : Decimal) : d.text.toList.any isExponentMark = false := by
  obtain ⟨w, ws, ps, hds, -, -, htext⟩ := d.exists_text
  obtain ⟨hwhole, hplaces⟩ := List.forall_mem_append.mp hds
  have hsign : (if d.negative then ['-'] else []).any isExponentMark = false := by
    cases d.negative <;> rfl
  have hpoint : (if d.scale.val = 0 then [] else '.' :: ps).any isExponentMark = false := by
    split
    · rfl
    · rw [List.any_cons, any_isExponentMark_of_isDigit hplaces]
      rfl
  rw [htext, List.any_append, List.any_append, hsign, any_isExponentMark_of_isDigit hwhole, hpoint]
  rfl

/-- **A written decimal is read as the decimal made of its parts.** -/
theorem read_text (d : Decimal) : read d.text = .ok (.make d.negative d.coefficient d.scale) := by
  obtain ⟨w, ws, ps, hds, hvalue, hlen, htext⟩ := d.exists_text
  have hw : w.isDigit = true := hds w (by simp)
  rw [read, any_isExponentMark_text, if_neg Bool.false_ne_true, htext]
  cases d.negative with
  | true => exact Progress.run_number true hds hvalue hlen
  | false =>
    exact (plain_of_isDigit hw _).trans (Progress.run_number false hds hvalue hlen)

end DecimalText

end PortableQuery
