import PortableQuery.Proofs.Number.Rounding

set_option autoImplicit false

/-!
# The shortest decimal reads back

A grid point of a power of ten reads back if it lies between the middles to the two neighbours of a
double. The grid next below a quarter of the last place has such a point, and it is among those that
are searched, so a decimal is found; its digits fit 64 bits.
-/

namespace PortableQuery

namespace FiniteDouble

variable {x : FiniteDouble} {j : ℤ} {a c : ℕ}

/-! ## Grid points -/

/-- What grid points and quarter-steps are counted in. -/
def commonUnit (x : FiniteDouble) (j : ℤ) : ℚ := 10 ^ (-j).toNat * 2 ^ (2 - x.exponent).toNat

theorem commonUnit_pos (x : FiniteDouble) (j : ℤ) : 0 < x.commonUnit j := by
  unfold commonUnit
  positivity

theorem cast_gridUnit (x : FiniteDouble) (j : ℤ) :
    (x.gridUnit j : ℚ) = 10 ^ j * x.commonUnit j := by
  have hten : (10 : ℚ) ≠ 0 := by norm_num
  rw [gridUnit, commonUnit, Double.zpow_eq_div hten, ← mul_assoc,
    div_mul_cancel₀ _ (pow_ne_zero _ hten)]
  norm_cast

theorem cast_stepUnit (x : FiniteDouble) (j : ℤ) :
    (x.stepUnit j : ℚ) = 2 ^ (x.exponent - 2) * x.commonUnit j := by
  rw [stepUnit, commonUnit, Double.zpow_eq_div two_ne_zero, neg_sub, mul_left_comm,
    div_mul_cancel₀ _ (pow_ne_zero _ two_ne_zero)]
  norm_cast

theorem steps_le_points : a * x.stepUnit j ≤ c * x.gridUnit j ↔
    (a : ℚ) * 2 ^ (x.exponent - 2) ≤ c * 10 ^ j := by
  rw [← Nat.cast_le (α := ℚ), Nat.cast_mul, Nat.cast_mul, cast_stepUnit, cast_gridUnit, ← mul_assoc,
    ← mul_assoc, mul_le_mul_iff_left₀ (x.commonUnit_pos j)]

theorem points_le_steps : c * x.gridUnit j ≤ a * x.stepUnit j ↔
    (c : ℚ) * 10 ^ j ≤ a * 2 ^ (x.exponent - 2) := by
  rw [← Nat.cast_le (α := ℚ), Nat.cast_mul, Nat.cast_mul, cast_stepUnit, cast_gridUnit, ← mul_assoc,
    ← mul_assoc, mul_le_mul_iff_left₀ (x.commonUnit_pos j)]

theorem cast_low (hx : x.significand ≠ 0) :
    ((4 * x.significand - x.lowerGap : ℕ) : ℚ) = 4 * x.significand - x.lowerGap := by
  have hgap := x.lowerGap_le_two
  rw [Nat.cast_sub (by omega)]
  push_cast
  rfl

/-- **A grid point reads back exactly if it lies between the middles.** -/
theorem readsBack_iff (hx : x.significand ≠ 0) :
    x.readsBack j c = true ↔ x.Holds (c * 10 ^ j) := by
  have hlow := steps_le_points (x := x) (j := j) (a := 4 * x.significand - x.lowerGap) (c := c)
  have hlow' := points_le_steps (x := x) (j := j) (a := 4 * x.significand - x.lowerGap) (c := c)
  have hhigh := points_le_steps (x := x) (j := j) (a := 4 * x.significand + 2) (c := c)
  have hhigh' := steps_le_points (x := x) (j := j) (a := 4 * x.significand + 2) (c := c)
  rw [cast_low hx] at hlow hlow'
  push_cast at hhigh hhigh'
  unfold readsBack
  dsimp only
  split
  · next heven =>
    rw [Bool.and_eq_true, decide_eq_true_iff, decide_eq_true_iff, hlow, hhigh]
    exact ⟨fun h => ⟨h.1, h.2, fun _ => heven⟩, fun h => ⟨h.low, h.high⟩⟩
  · next hodd =>
    rw [Bool.and_eq_true, decide_eq_true_iff, decide_eq_true_iff, ← not_le, ← not_le, hlow', hhigh',
      not_le, not_le]
    refine ⟨fun h => ⟨h.1.le, h.2.le, fun hmiddle => ?_⟩, fun h => ⟨?_, ?_⟩⟩
    · exact absurd hmiddle (not_or.mpr ⟨h.1.ne', h.2.ne⟩)
    · exact h.low.lt_of_ne fun hmiddle => hodd (h.even (.inl hmiddle.symm))
    · exact h.high.lt_of_ne fun hmiddle => hodd (h.even (.inr hmiddle))

/-! ## The search -/

theorem onGrid?_spec (h : x.onGrid? j = some c) : x.readsBack j c = true := by
  unfold onGrid? at h
  dsimp only at h
  split at h
  · next hfirst hsecond =>
    split at h
    · cases h
      exact hfirst
    · cases h
      exact hsecond
  · next hfirst _ =>
    cases h
    exact hfirst
  · next _ hsecond =>
    cases h
    exact hsecond
  · cases h

/-- On a grid no coarser than a quarter of the last place, the point next below reads back. -/
theorem onGrid?_isSome (hx : x.significand ≠ 0) (hj : (10 : ℚ) ^ j ≤ 2 ^ (x.exponent - 2)) :
    (x.onGrid? j).isSome = true := by
  have hunit : x.gridUnit j ≤ x.stepUnit j := by
    have := points_le_steps (x := x) (j := j) (a := 1) (c := 1)
    simpa using this.mpr (by simpa using hj)
  have hpos : 0 < x.gridUnit j := by
    unfold gridUnit
    positivity
  have hbelow : x.readsBack j (x.below j) = true := by
    have hgap := x.one_le_lowerGap
    have hdiv := Nat.div_add_mod' (4 * x.significand * x.stepUnit j) (x.gridUnit j)
    have hmod := Nat.mod_lt (4 * x.significand * x.stepUnit j) hpos
    have hlow : (4 * x.significand - x.lowerGap) * x.stepUnit j < x.below j * x.gridUnit j := by
      have hstep : (4 * x.significand - x.lowerGap) * x.stepUnit j + x.stepUnit j ≤
          4 * x.significand * x.stepUnit j := by
        rw [← Nat.succ_mul]
        exact Nat.mul_le_mul_right _ (by omega)
      unfold below
      omega
    have hhigh : x.below j * x.gridUnit j < (4 * x.significand + 2) * x.stepUnit j := by
      unfold below
      rw [Nat.add_mul]
      omega
    unfold readsBack
    dsimp only
    split
    · simp [hlow.le, hhigh.le]
    · simp [hlow, hhigh]
  unfold onGrid?
  simp only [hbelow]
  cases x.readsBack j (x.below j + 1) with
  | true => dsimp only; split <;> rfl
  | false => rfl

/-- The search ends with a point that reads back, at the last grid if not before. -/
theorem coarsest_spec {n : ℕ} (h : (x.onGrid? (j - n)).isSome = true) :
    x.readsBack (x.coarsest (n + 1) j).2 (x.coarsest (n + 1) j).1 = true ∧
      j - n ≤ (x.coarsest (n + 1) j).2 := by
  induction n generalizing j with
  | zero =>
    obtain ⟨c, hc⟩ := Option.isSome_iff_exists.mp h
    rw [Nat.cast_zero, sub_zero] at hc
    simp only [coarsest, hc]
    exact ⟨onGrid?_spec hc, by omega⟩
  | succ n ih =>
    rw [coarsest]
    cases hc : x.onGrid? j with
    | some c => exact ⟨onGrid?_spec hc, by dsimp only; omega⟩
    | none =>
      have hlast : j - (n + 1 : ℕ) = j - 1 - n := by omega
      rw [hlast] at h ⊢
      exact ih h

theorem trimZeros_spec (fuel c : ℕ) (j : ℤ) :
    ((trimZeros fuel c j).1 : ℚ) * 10 ^ (trimZeros fuel c j).2 = c * 10 ^ j ∧
      (trimZeros fuel c j).1 ≤ c := by
  induction fuel generalizing c j with
  | zero => exact ⟨rfl, le_rfl⟩
  | succ fuel ih =>
    rw [trimZeros]
    split
    · next hzero =>
      obtain ⟨hvalue, hle⟩ := ih (c / 10) (j + 1)
      refine ⟨hvalue.trans ?_, hle.trans (Nat.div_le_self c 10)⟩
      have hc : (c : ℚ) = (c / 10 : ℕ) * 10 := by exact_mod_cast (Nat.div_mul_cancel
        (Nat.dvd_of_mod_eq_zero hzero.1)).symm
      rw [zpow_add_one₀ (by norm_num), hc]
      ring
    · exact ⟨rfl, le_rfl⟩

/-! ## Enough grids -/

/-- The power of two below the magnitude. -/
def leading (x : FiniteDouble) : ℤ := x.significand.log2 + x.exponent

/-- The top grid of a magnitude with this leading power of two. -/
def topOf (e : ℤ) : ℤ := (e * 30103).fdiv 100000 + 2

/-- The top grid is above the magnitude, and the nineteenth below it finer than a quarter of the last
place. -/
def EnoughGrids (e : ℤ) : Prop :=
  2 ^ (e + 1).toNat * 10 ^ (-topOf e).toNat ≤ 10 ^ (topOf e).toNat * 2 ^ (-(e + 1)).toNat ∧
    10 ^ (topOf e - 19).toNat * 2 ^ (54 - e).toNat ≤ 2 ^ (e - 54).toNat * 10 ^ (19 - topOf e).toNat

instance (e : ℤ) : Decidable (EnoughGrids e) := inferInstanceAs (Decidable (_ ∧ _))

theorem all_enoughGrids :
    ((List.range 2098).all fun k => decide (EnoughGrids (k - 1074))) = true := by decide +kernel

theorem enoughGrids {e : ℤ} (hlow : -1074 ≤ e) (hhigh : e < 1024) :
    (2 : ℚ) ^ (e + 1) ≤ 10 ^ topOf e ∧ (10 : ℚ) ^ (topOf e - 19) ≤ 2 ^ (e - 54) := by
  have hall := List.all_eq_true.mp all_enoughGrids (e + 1074).toNat (List.mem_range.mpr (by omega))
  have he : ((e + 1074).toNat : ℤ) - 1074 = e := by omega
  rw [he, decide_eq_true_iff] at hall
  have hten : (10 : ℚ) ≠ 0 := by norm_num
  obtain ⟨htop, hfine⟩ := hall
  constructor
  · rw [Double.zpow_eq_div two_ne_zero, Double.zpow_eq_div hten,
      div_le_div_iff₀ (by positivity) (by positivity)]
    exact_mod_cast htop
  · rw [Double.zpow_eq_div two_ne_zero, Double.zpow_eq_div hten, neg_sub, neg_sub,
      div_le_div_iff₀ (by positivity) (by positivity)]
    exact_mod_cast hfine

theorem exponent_le (x : FiniteDouble) : x.exponent ≤ 971 := by
  have hbiased : x.biased < 2047 := Nat.div_lt_of_lt_mul (by
    have := x.magnitude.isLt
    unfold magnitudes at this
    omega)
  unfold exponent
  omega

theorem log2_significand_le (x : FiniteDouble) : x.significand.log2 ≤ 52 := by
  by_cases hx : x.significand = 0
  · simp [hx]
  · exact Nat.le_of_lt_succ ((Nat.log2_lt hx).mpr x.significand_lt)

theorem Holds.pos {r : ℚ} (hx : x.significand ≠ 0) (h : x.Holds r) : 0 < r := by
  have hgap : (x.lowerGap : ℚ) ≤ 2 := by exact_mod_cast x.lowerGap_le_two
  have hone : (1 : ℚ) ≤ x.significand := by exact_mod_cast Nat.one_le_iff_ne_zero.mpr hx
  exact (mul_pos (by linarith) (Double.two_zpow_pos _)).trans_le h.low

theorem Holds.le_two_zpow {r : ℚ} (h : x.Holds r) : r ≤ 2 ^ (x.leading + 1) := by
  have hpow := Double.two_zpow_pos x.exponent
  have hlog : (x.significand : ℚ) + 1 ≤ 2 ^ (x.significand.log2 + 1) := by
    exact_mod_cast Nat.lt_log2_self
  have hhigh := h.high
  have hsplit : x.leading + 1 = x.exponent + (x.significand.log2 + 1 : ℕ) := by
    unfold leading
    push_cast
    ring
  rw [quarter] at hhigh
  rw [hsplit, zpow_add₀ two_ne_zero, zpow_natCast]
  nlinarith

/-- **The decimal that is found reads back**, and its digits fit 64 bits. -/
theorem shortest_spec (hx : x.significand ≠ 0) :
    x.Holds (x.shortest.1 * 10 ^ x.shortest.2) ∧ 0 < x.shortest.1 ∧ x.shortest.1 ≤ 10 ^ 19 := by
  have hlog := x.log2_significand_le
  obtain ⟨htop, hfine⟩ := enoughGrids (e := x.leading)
    (by have := x.neg_1074_le_exponent; unfold leading; omega)
    (by have := x.exponent_le; unfold leading; omega)
  have hlast : (10 : ℚ) ^ (x.topGrid - (19 : ℕ)) ≤ 2 ^ (x.exponent - 2) :=
    hfine.trans (zpow_le_zpow_right₀ one_le_two (by unfold leading; omega))
  obtain ⟨hreads, hgrid⟩ := coarsest_spec (onGrid?_isSome hx hlast)
  obtain ⟨hvalue, hle⟩ := trimZeros_spec 20 (x.coarsest 20 x.topGrid).1 (x.coarsest 20 x.topGrid).2
  have hshortest : x.shortest =
      trimZeros 20 (x.coarsest 20 x.topGrid).1 (x.coarsest 20 x.topGrid).2 := if_neg hx
  have hholds := (readsBack_iff hx).mp hreads
  rw [hshortest]
  refine ⟨hvalue ▸ hholds, Nat.pos_of_ne_zero fun hzero => ?_, hle.trans ?_⟩
  · have hpos := hholds.pos hx
    rw [← hvalue, hzero, Nat.cast_zero, zero_mul] at hpos
    exact lt_irrefl _ hpos
  · have hunit : (0 : ℚ) < 10 ^ (x.topGrid - (19 : ℕ)) := zpow_pos (by norm_num) _
    have hbound : ((x.coarsest 20 x.topGrid).1 : ℚ) * 10 ^ (x.topGrid - (19 : ℕ)) ≤
        10 ^ 19 * 10 ^ (x.topGrid - (19 : ℕ)) := by
      calc ((x.coarsest 20 x.topGrid).1 : ℚ) * 10 ^ (x.topGrid - (19 : ℕ))
          ≤ (x.coarsest 20 x.topGrid).1 * 10 ^ (x.coarsest 20 x.topGrid).2 :=
            mul_le_mul_of_nonneg_left (zpow_le_zpow_right₀ (by norm_num) hgrid) (Nat.cast_nonneg _)
        _ ≤ 2 ^ (x.leading + 1) := hholds.le_two_zpow
        _ ≤ 10 ^ x.topGrid := htop
        _ = 10 ^ 19 * 10 ^ (x.topGrid - (19 : ℕ)) := by
            rw [← zpow_natCast, ← zpow_add₀ (by norm_num), add_sub_cancel]
    exact_mod_cast le_of_mul_le_mul_right hbound hunit

/-! ## Reading the decimal -/

theorem length_toDigits_spec {n : ℕ} (hn : 0 < n) :
    (10 : ℚ) ^ ((Nat.toDigits 10 n).length - 1 : ℤ) ≤ n ∧
      (n : ℚ) < 10 ^ ((Nat.toDigits 10 n).length : ℤ) := by
  have hpos : 0 < (Nat.toDigits 10 n).length := List.length_pos_iff.mpr Nat.toDigits_ne_nil
  constructor
  · obtain ⟨k, hk⟩ := Nat.exists_eq_succ_of_ne_zero hpos.ne'
    have hlow : 10 ^ k ≤ n := by
      rcases k.eq_zero_or_pos with rfl | hkpos
      · exact hn
      · have hnot := (Nat.length_toDigits_le_iff (b := 10) (n := n) (by decide) hkpos).not
        exact Nat.le_of_not_lt (hnot.mp (by omega))
    have hcast : ((Nat.toDigits 10 n).length - 1 : ℤ) = k := by omega
    rw [hcast, zpow_natCast]
    exact_mod_cast hlow
  · rw [zpow_natCast]
    exact_mod_cast (Nat.length_toDigits_le_iff (by decide) hpos).mp le_rfl

theorem two_zpow_lt_ten_zpow {a b : ℕ} (h : 2 ^ a < 10 ^ b) :
    (2 : ℚ) ^ (a : ℤ) < 10 ^ (b : ℤ) := by
  rw [zpow_natCast, zpow_natCast]
  exact_mod_cast h

/-- A decimal that reads back has no size at which rounding is cut short. -/
theorem Holds.size_bounds (hx : x.significand ≠ 0) {n : ℕ} {e : ℤ} (hn : 0 < n)
    (h : x.Holds (n * 10 ^ e)) :
    -330 ≤ ((Nat.toDigits 10 n).length : ℤ) + e ∧ ((Nat.toDigits 10 n).length : ℤ) + e ≤ 310 := by
  have hten : (1 : ℚ) < 10 := by norm_num
  have hunit : (0 : ℚ) < 10 ^ e := zpow_pos (by norm_num) e
  obtain ⟨hlow, hhigh⟩ := length_toDigits_spec hn
  have hbelow : (10 : ℚ) ^ (-331 : ℤ) < 10 ^ (((Nat.toDigits 10 n).length : ℤ) + e) := by
    calc (10 : ℚ) ^ (-331 : ℤ) < 2 ^ (-1075 : ℤ) := by
          rw [zpow_neg, zpow_neg]
          exact inv_strictAnti₀ (Double.two_zpow_pos 1075)
            (two_zpow_lt_ten_zpow (a := 1075) (b := 331) (by decide +kernel))
      _ ≤ 2 ^ (x.exponent - 2 + 1) :=
          zpow_le_zpow_right₀ one_le_two (by have := x.neg_1074_le_exponent; omega)
      _ = 2 * 2 ^ (x.exponent - 2) := by rw [zpow_add_one₀ two_ne_zero, mul_comm]
      _ ≤ (4 * x.significand - x.lowerGap) * 2 ^ (x.exponent - 2) := by
          have hgap : (x.lowerGap : ℚ) ≤ 2 := by exact_mod_cast x.lowerGap_le_two
          have hone : (1 : ℚ) ≤ x.significand := by exact_mod_cast Nat.one_le_iff_ne_zero.mpr hx
          exact mul_le_mul_of_nonneg_right (by linarith) (Double.two_zpow_pos _).le
      _ ≤ n * 10 ^ e := h.low
      _ < 10 ^ ((Nat.toDigits 10 n).length : ℤ) * 10 ^ e := mul_lt_mul_of_pos_right hhigh hunit
      _ = 10 ^ (((Nat.toDigits 10 n).length : ℤ) + e) := (zpow_add₀ (by norm_num) _ _).symm
  have habove : (10 : ℚ) ^ (((Nat.toDigits 10 n).length : ℤ) - 1 + e) < 10 ^ (309 : ℤ) := by
    calc (10 : ℚ) ^ (((Nat.toDigits 10 n).length : ℤ) - 1 + e)
        = 10 ^ (((Nat.toDigits 10 n).length : ℤ) - 1) * 10 ^ e := zpow_add₀ (by norm_num) _ _
      _ ≤ n * 10 ^ e := mul_le_mul_of_nonneg_right hlow hunit.le
      _ ≤ 2 ^ (x.leading + 1) := h.le_two_zpow
      _ ≤ 2 ^ (1024 : ℤ) := zpow_le_zpow_right₀ one_le_two (by
          have := x.log2_significand_le
          have := x.exponent_le
          unfold leading
          omega)
      _ < 10 ^ (309 : ℤ) := two_zpow_lt_ten_zpow (a := 1024) (b := 309) (by decide +kernel)
  rw [zpow_lt_zpow_iff_right₀ hten] at hbelow habove
  omega

/-- **A decimal between the middles is read as the double.** -/
theorem ofScientific_of_holds (hx : x.significand ≠ 0) {n : ℕ} {e : ℤ}
    (h : x.Holds (n * 10 ^ e)) : Double.ofScientific x.negative n e = .finite x := by
  have hn : 0 < n := by
    have hpos := h.pos hx
    rcases n.eq_zero_or_pos with rfl | hn
    · rw [Nat.cast_zero, zero_mul] at hpos
      exact absurd hpos (lt_irrefl _)
    · exact hn
  obtain ⟨hlow, hhigh⟩ := h.size_bounds hx hn
  have hquotient : ((n * 10 ^ e.toNat : ℕ) : ℚ) / (10 ^ (-e).toNat : ℕ) = n * 10 ^ e := by
    rw [Double.zpow_eq_div (by norm_num)]
    push_cast
    rw [mul_div_assoc]
  unfold Double.ofScientific
  dsimp only
  rw [if_neg hn.ne', if_neg (by omega), if_neg (by omega)]
  exact Double.nearest_of_holds (by positivity) (by positivity) (hquotient ▸ h)

end FiniteDouble

end PortableQuery
