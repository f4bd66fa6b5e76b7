import PortableQuery.Number.Scaled
import PortableQuery.Proofs.Number.Digits
import PortableQuery.Proofs.Number.Shortest

set_option autoImplicit false

/-!
# Scaled decimals are finite

An integer that is scaled step by step may miss the nearest double, but the shortest decimal of a
double never becomes infinite: division by a power of ten makes nothing larger, and the greatest
products there can be are computed.
-/

namespace PortableQuery

namespace Double

theorem finite?_eq_some {x : FiniteDouble} {d : Double} : d.finite? = some x ↔ d = finite x := by
  cases d <;> simp [finite?]

end Double

namespace FiniteDouble

variable {x x' y y' : FiniteDouble}

/-! ## Products and quotients -/

theorem denominator_pos (x : FiniteDouble) : 0 < x.denominator := Nat.two_pow_pos _

theorem numerator_div_denominator (x : FiniteDouble) :
    (x.numerator / x.denominator : ℚ) = x.size := by
  rw [numerator, denominator, size, Double.zpow_eq_div two_ne_zero]
  push_cast
  rw [mul_div_assoc]

theorem size_nonneg (x : FiniteDouble) : 0 ≤ x.size :=
  mul_nonneg (Nat.cast_nonneg _) (Double.two_zpow_pos _).le

theorem exists_nearest_self (x : FiniteDouble) :
    ∃ z, Double.nearest x.negative x.numerator x.denominator = .finite z := by
  rcases x.numerator.eq_zero_or_pos with hzero | hpos
  · exact ⟨.zero x.negative, if_pos hzero⟩
  · exact ⟨x, Double.nearest_of_holds hpos x.denominator_pos
      (x.numerator_div_denominator ▸ x.holds_size)⟩

/-- **A product is finite if a greater one is.** -/
theorem exists_times (hx : x.size ≤ x'.size) (hy : y.size ≤ y'.size)
    (h : (x'.times? y').isSome = true) : ∃ z, x.times? y = some z := by
  obtain ⟨z', hz'⟩ := Option.isSome_iff_exists.mp h
  have hproduct (x y : FiniteDouble) : ((x.numerator * y.numerator : ℕ) : ℚ) /
      (x.denominator * y.denominator : ℕ) = x.size * y.size := by
    rw [Nat.cast_mul, Nat.cast_mul, mul_div_mul_comm, numerator_div_denominator,
      numerator_div_denominator]
  have hle := mul_le_mul hx hy y.size_nonneg x'.size_nonneg
  rw [← hproduct, ← hproduct] at hle
  obtain ⟨z, hz, -⟩ := Double.exists_nearest_of_le
    (Nat.mul_pos x.denominator_pos y.denominator_pos)
    (Nat.mul_pos x'.denominator_pos y'.denominator_pos) hle (Double.finite?_eq_some.mp hz')
    x.negative
  exact ⟨z, Double.finite?_eq_some.mpr hz⟩

/-- **A quotient by one or more is finite.** -/
theorem exists_over (hy : 1 ≤ y.size) : ∃ z, x.over? y = some z := by
  have hpos : 0 < y.numerator := Nat.pos_of_ne_zero fun hzero => by
    rw [← numerator_div_denominator, hzero, Nat.cast_zero, zero_div] at hy
    exact absurd hy (by norm_num)
  have hquotient : ((x.numerator * y.denominator : ℕ) : ℚ) / (x.denominator * y.numerator : ℕ) ≤
      x.numerator / x.denominator := by
    rw [Nat.cast_mul, Nat.cast_mul, mul_div_mul_comm, ← inv_div (y.numerator : ℚ),
      numerator_div_denominator, numerator_div_denominator, ← div_eq_mul_inv]
    exact div_le_self x.size_nonneg hy
  obtain ⟨x', hx'⟩ := x.exists_nearest_self
  obtain ⟨z, hz, -⟩ := Double.exists_nearest_of_le (Nat.mul_pos x.denominator_pos hpos)
    x.denominator_pos hquotient hx' x.negative
  exact ⟨z, Double.finite?_eq_some.mpr hz⟩

end FiniteDouble

/-! ## Scaling -/

namespace Double

variable {n n' : ℕ} {e e' : ℤ}

theorem exists_tenTo {k k' : ℕ} (hk : k ≤ k') (hk' : k' ≤ 308) :
    ∃ y y', tenTo? k = some y ∧ tenTo? k' = some y' ∧ 1 ≤ y.size ∧ y.size ≤ y'.size := by
  have hle {a b : ℕ} (h : a ≤ b) : 10 ^ a ≤ 10 ^ b := Nat.pow_le_pow_right (by decide) h
  obtain ⟨top, htop⟩ : ∃ y, nearest false (10 ^ 308) 1 = finite y :=
    ⟨⟨false, 9214871658872686752, by decide⟩, by decide +kernel⟩
  obtain ⟨y', hy', -⟩ := exists_nearest_one_of_le (hle hk') htop false
  obtain ⟨y, hy, hmono⟩ := exists_nearest_one_of_le (hle hk) hy' false
  obtain ⟨one, hone, hfirst⟩ := exists_nearest_one_of_le (hle k.zero_le) hy false
  refine ⟨y, y', finite?_eq_some.mpr hy, finite?_eq_some.mpr hy', ?_,
    FiniteDouble.size_le_size hmono⟩
  have hvalue : nearest false (10 ^ 0) 1 = finite ⟨false, 1023 * 2 ^ 52, by decide⟩ := by
    decide +kernel
  obtain rfl : (⟨false, 1023 * 2 ^ 52, by decide⟩ : FiniteDouble) = one := by
    rw [hvalue] at hone
    exact finite.inj hone
  refine le_trans ?_ (FiniteDouble.size_le_size hfirst)
  norm_num [FiniteDouble.size, FiniteDouble.significand, FiniteDouble.exponent,
    FiniteDouble.biased, FiniteDouble.fraction]

theorem exists_scaled_of_neg (negative : Bool) (hn : n ≤ 2 ^ 64) (he : e < 0) :
    ∃ y, scaled? negative n e = some y := by
  have hover (x : FiniteDouble) {k : ℕ} (hk : k ≤ 308) :
      ∃ y z, tenTo? k = some y ∧ x.over? y = some z := by
    obtain ⟨y, -, hy, -, hone, -⟩ := exists_tenTo le_rfl hk
    obtain ⟨z, hz⟩ := FiniteDouble.exists_over (x := x) hone
    exact ⟨y, z, hy, hz⟩
  obtain ⟨x, hx⟩ := exists_nearest_one negative hn
  simp only [scaled?, hx, finite?, Option.bind_eq_bind, Option.bind_some, if_neg (not_le.mpr he)]
  split
  · next hk =>
    obtain ⟨y, z, hy, hz⟩ := hover x hk
    exact ⟨z, by rw [hy, Option.bind_some, hz]⟩
  · split
    · next hk =>
      obtain ⟨y, z, hy, hz⟩ := hover x le_rfl
      obtain ⟨y', z', hy', hz'⟩ := hover z (k := (-e).toNat - 308) (by omega)
      exact ⟨z', by rw [hy, Option.bind_some, hz, Option.bind_some, hy', Option.bind_some, hz']⟩
    · exact ⟨_, rfl⟩

/-- **What is multiplied by a power of ten is finite if something greater is.** -/
theorem exists_scaled_of_le (negative : Bool) {negative' : Bool} (hn : n ≤ n') (he : 0 ≤ e)
    (hee : e ≤ e') (h : (scaled? negative' n' e').isSome = true) :
    ∃ y, scaled? negative n e = some y := by
  obtain ⟨z', hz'⟩ := Option.isSome_iff_exists.mp h
  simp only [scaled?, Option.bind_eq_bind, Option.bind_eq_some_iff, finite?_eq_some,
    if_pos (he.trans hee)] at hz'
  obtain ⟨x', hx', hz'⟩ := hz'
  obtain ⟨x, hx, hmono⟩ := exists_nearest_one_of_le hn hx' negative
  simp only [scaled?, hx, finite?, Option.bind_eq_bind, Option.bind_some, if_pos he]
  split
  · exact ⟨x, rfl⟩
  · next hzero =>
    rw [if_neg (by omega)] at hz'
    split at hz'
    · next hbound =>
      obtain ⟨y', hy', hz'⟩ := Option.bind_eq_some_iff.mp hz'
      obtain ⟨y, y'', hy, hy'', -, hsize⟩ :=
        exists_tenTo (Int.toNat_le_toNat hee) (Int.toNat_le.mpr hbound)
      obtain rfl : y' = y'' := Option.some.inj (hy'.symm.trans hy'')
      rw [if_pos (hee.trans hbound), hy, Option.bind_some]
      exact FiniteDouble.exists_times (FiniteDouble.size_le_size hmono) hsize (hz' ▸ rfl)
    · cases hz'

end Double

/-! ## The shortest decimal -/

namespace FiniteDouble

/-- The power of two of half the last place of the greatest magnitudes. -/
def halfPlace : ℕ := 970

/-- What every decimal that reads back as another magnitude than the greatest stays within. -/
def ceiling : ℕ := (2 ^ 54 - 3) * 2 ^ halfPlace

theorem cast_ceiling : (ceiling : ℚ) = (2 ^ 54 - 3 : ℕ) * 2 ^ (halfPlace : ℤ) := by
  rw [ceiling, Nat.cast_mul, Nat.cast_pow, Nat.cast_ofNat, zpow_natCast]

theorem ceiling_lt : ceiling < 10 ^ 309 := by decide +kernel

theorem scaled_ceiling : ((List.range 20).all fun k =>
    (Double.scaled? false (ceiling / 10 ^ (289 + k)) (289 + k : ℕ)).isSome) = true := by
  decide +kernel

theorem scaled_nineteen : (Double.scaled? false (10 ^ 19) 288).isSome = true := by decide +kernel

theorem scaled_greatest (sign : Bool) :
    (Double.scaled? false (FiniteDouble.mk sign ⟨magnitudes - 1, by decide⟩).shortest.1
      (FiniteDouble.mk sign ⟨magnitudes - 1, by decide⟩).shortest.2).isSome = true := by
  cases sign <;> decide +kernel

theorem Holds.le_ceiling {x : FiniteDouble} {r : ℚ} (h : x.Holds r)
    (hx : x.magnitude.val + 1 < magnitudes) : r ≤ ceiling := by
  let top : FiniteDouble := ⟨false, magnitudes - 2, by decide⟩
  have hsignificand : top.significand = 2 ^ 53 - 2 := by decide +kernel
  have hexponent : top.exponent = halfPlace + 1 := by decide +kernel
  have hsize : x.size ≤ top.size := size_le_size (Nat.le_sub_of_add_le hx)
  have hhalf : (2 : ℚ) ^ x.exponent ≤ 2 ^ (halfPlace + 1 : ℤ) :=
    zpow_le_zpow_right₀ one_le_two x.exponent_le
  have hhigh := h.high
  rw [quarter] at hhigh
  rw [size, size, hsignificand, hexponent] at hsize
  rw [zpow_add_one₀ two_ne_zero] at hsize hhalf
  rw [cast_ceiling]
  push_cast at hsize ⊢
  linarith

/-- **The shortest decimal of a double is finite also if it is computed step by step.** -/
theorem exists_scaled_shortest {x : FiniteDouble} (hx : x.significand ≠ 0) (negative : Bool) :
    ∃ y, Double.scaled? negative x.shortest.1 x.shortest.2 = some y := by
  obtain ⟨hholds, hpos, hle⟩ := x.shortest_spec hx
  have h64 : x.shortest.1 ≤ 2 ^ 64 := hle.trans (by decide)
  rcases lt_or_ge x.shortest.2 0 with hneg | hnonneg
  · exact Double.exists_scaled_of_neg negative h64 hneg
  rcases le_or_gt x.shortest.2 288 with hsmall | hlarge
  · exact Double.exists_scaled_of_le negative hle hnonneg hsmall scaled_nineteen
  by_cases htop : x.magnitude.val + 1 < magnitudes
  · have hcast : (x.shortest.1 : ℚ) * 10 ^ x.shortest.2.toNat ≤ ceiling := by
      have hle := hholds.le_ceiling htop
      rwa [← Int.toNat_of_nonneg hnonneg, zpow_natCast] at hle
    have hquotient : x.shortest.1 ≤ ceiling / 10 ^ x.shortest.2.toNat :=
      (Nat.le_div_iff_mul_le (by positivity)).mpr (by exact_mod_cast hcast)
    have hpower : 10 ^ x.shortest.2.toNat < 10 ^ 309 :=
      (Nat.div_pos_iff.mp (hpos.trans_le hquotient)).2.trans_lt ceiling_lt
    have hrange := (Nat.pow_lt_pow_iff_right (by decide)).mp hpower
    have hall := List.all_eq_true.mp scaled_ceiling (x.shortest.2.toNat - 289)
      (List.mem_range.mpr (by omega))
    have hk : 289 + (x.shortest.2.toNat - 289) = x.shortest.2.toNat := by omega
    rw [hk] at hall
    exact Double.exists_scaled_of_le negative hquotient hnonneg (by omega) hall
  · obtain ⟨sign, code, hcode⟩ := x
    obtain rfl : code = magnitudes - 1 := by
      dsimp only at htop
      omega
    exact Double.exists_scaled_of_le negative le_rfl hnonneg le_rfl (scaled_greatest sign)

end FiniteDouble

/-! ## Digits -/

theorem Digits.absorb_eq {n : ℕ} {cs : List Char}
    (h : n * 10 ^ cs.length + value cs < 2 ^ 64) :
    absorb n cs = (n * 10 ^ cs.length + value cs, []) := by
  induction cs generalizing n with
  | nil => simp [absorb]
  | cons c cs ih =>
    rw [shift_digit] at h ⊢
    rw [absorb, if_pos ((le_shift _ cs).trans_lt h), ih h]

end PortableQuery
