import Mathlib.Data.Int.Log
import Mathlib.Data.Rat.Floor
import Mathlib.Tactic.FieldSimp
import Mathlib.Tactic.Linarith
import Mathlib.Tactic.NormNum
import Mathlib.Tactic.Ring
import PortableQuery.Number.Shortest

set_option autoImplicit false

/-!
# Rounding to doubles

A positive number is rounded to a multiple of a power of two, its last place, and the multiple and
the place make up the magnitude code. Which code it is depends on the number alone, not on the
quotient that it is given as, and a larger number has no smaller code.
-/

namespace PortableQuery

namespace Double

/-! ## Integers -/

/-- `m` is the integer nearest to `r`, the even one of two. -/
structure IsNearestInt (r : ℚ) (m : ℕ) : Prop where
  low : (m : ℚ) - 1 / 2 ≤ r
  high : r ≤ m + 1 / 2
  even : r = m - 1 / 2 ∨ r = m + 1 / 2 → m % 2 = 0

theorem IsNearestInt.mono {r s : ℚ} {m n : ℕ} (hrs : r ≤ s) (hm : IsNearestInt r m)
    (hn : IsNearestInt s n) : m ≤ n := by
  by_contra hlt
  have hcast : (n : ℚ) + 1 ≤ m := by exact_mod_cast Nat.lt_of_not_le hlt
  have hlow := hm.low
  have hhigh := hn.high
  -- both lie in the middle between two integers, and those cannot both be even
  have heven := hm.even (.inl (by linarith))
  have heven' := hn.even (.inr (by linarith))
  have hnext : (m : ℚ) = n + 1 := by linarith
  have hnext : m = n + 1 := by exact_mod_cast hnext
  omega

theorem div_lt_half_iff {n b : ℕ} (hb : 0 < b) : (n / b : ℚ) < 1 / 2 ↔ 2 * n < b := by
  have hpos : (0 : ℚ) < b := by exact_mod_cast hb
  rw [div_lt_div_iff₀ hpos two_pos, one_mul, mul_comm]
  exact_mod_cast Iff.rfl

theorem div_eq_half_iff {n b : ℕ} (hb : 0 < b) : (n / b : ℚ) = 1 / 2 ↔ 2 * n = b := by
  have hpos : (0 : ℚ) < b := by exact_mod_cast hb
  rw [div_eq_div_iff hpos.ne' two_ne_zero, one_mul, mul_comm]
  exact_mod_cast Iff.rfl

theorem isNearestInt_roundDiv (a : ℕ) {b : ℕ} (hb : 0 < b) :
    IsNearestInt (a / b : ℚ) (roundDiv a b) := by
  have hpos : (0 : ℚ) < b := by exact_mod_cast hb
  have hrem : (a % b : ℕ) < (b : ℚ) := by exact_mod_cast Nat.mod_lt a hb
  have hdiv : (a / b : ℚ) = (a / b : ℕ) + (a % b : ℕ) / b := by
    rw [div_eq_iff hpos.ne', add_mul, div_mul_cancel₀ _ hpos.ne']
    exact_mod_cast (Nat.div_add_mod' a b).symm
  have hfraction : (0 : ℚ) ≤ (a % b : ℕ) / b ∧ ((a % b : ℕ) / b : ℚ) < 1 :=
    ⟨by positivity, (div_lt_one hpos).mpr hrem⟩
  have hhalf := div_lt_half_iff (n := a % b) hb
  have htie := div_eq_half_iff (n := a % b) hb
  rw [hdiv]
  unfold roundDiv
  dsimp only
  generalize ((a % b : ℕ) / b : ℚ) = e at *
  split
  · next hup =>
    have hlow : (1 : ℚ) / 2 ≤ e := by
      by_contra hlt
      have := hhalf.mp (lt_of_not_ge hlt)
      omega
    refine ⟨by push_cast; linarith, by push_cast; linarith [hfraction.2], ?_⟩
    push_cast
    rintro (h | h)
    · have := htie.mp (by linarith)
      omega
    · linarith [hfraction.2]
  · next hdown =>
    have hhigh : e ≤ 1 / 2 := by
      by_contra hlt
      have hne : ¬ 2 * (a % b) < b := fun h => hlt (hhalf.mpr h).le
      have hne' : ¬ 2 * (a % b) = b := fun h => hlt (htie.mpr h).le
      omega
    refine ⟨by linarith [hfraction.1], by linarith, ?_⟩
    rintro (h | h)
    · linarith [hfraction.1]
    · have := htie.mp (by linarith)
      omega

/-! ## Powers -/

theorem two_zpow_pos (k : ℤ) : (0 : ℚ) < 2 ^ k := zpow_pos two_pos k

theorem zpow_eq_div {b : ℚ} (hb : b ≠ 0) (k : ℤ) : b ^ k = b ^ k.toNat / b ^ (-k).toNat := by
  rw [← zpow_natCast, ← zpow_natCast, ← zpow_sub₀ hb, Int.toNat_sub_toNat_neg]

theorem log2Div_eq {num den : ℕ} (hnum : 0 < num) (hden : 0 < den) :
    log2Div num den = Int.log 2 (num / den : ℚ) := by
  have hnum' : (0 : ℚ) < num := by exact_mod_cast hnum
  have hden' : (0 : ℚ) < den := by exact_mod_cast hden
  have hquotient : (0 : ℚ) < num / den := div_pos hnum' hden'
  have hlow (n : ℕ) (hn : 0 < n) : (2 : ℚ) ^ (n.log2 : ℤ) ≤ n := by
    rw [zpow_natCast]
    exact_mod_cast Nat.log2_self_le hn.ne'
  have hhigh (n : ℕ) : (n : ℚ) < 2 ^ ((n.log2 : ℤ) + 1) := by
    rw [← Nat.cast_succ, zpow_natCast]
    exact_mod_cast Nat.lt_log2_self
  unfold log2Div
  dsimp only
  generalize hk : (num.log2 : ℤ) - den.log2 = k
  have hbelow : (2 : ℚ) ^ (k - 1) ≤ num / den := by
    rw [← hk, sub_sub, zpow_sub₀ two_ne_zero]
    exact div_le_div₀ hnum'.le (hlow num hnum) hden' (hhigh den).le
  have habove : (num / den : ℚ) < 2 ^ (k + 1) := by
    rw [← hk, sub_add_eq_add_sub, zpow_sub₀ two_ne_zero]
    exact div_lt_div₀ (hhigh num) (hlow den hden) (two_zpow_pos _).le (two_zpow_pos _)
  have hsplit : num * 2 ^ (-k).toNat < den * 2 ^ k.toNat ↔ (num / den : ℚ) < 2 ^ k := by
    rw [zpow_eq_div two_ne_zero, div_lt_div_iff₀ hden' (by positivity), mul_comm (2 ^ k.toNat : ℚ)]
    exact_mod_cast Iff.rfl
  have hbelow' := (Int.zpow_le_iff_le_log one_lt_two hquotient).mp (by exact_mod_cast hbelow)
  have habove' := (Int.lt_zpow_iff_log_lt one_lt_two hquotient).mp (by exact_mod_cast habove)
  have hsplit' : num * 2 ^ (-k).toNat < den * 2 ^ k.toNat ↔ Int.log 2 (num / den : ℚ) < k := by
    rw [hsplit, ← Int.lt_zpow_iff_log_lt one_lt_two hquotient, Nat.cast_ofNat]
  split <;> omega

/-! ## Codes -/

/-- The power of two that the last place of a rounded number counts. -/
def lastPlace (r : ℚ) : ℤ := max (Int.log 2 r - 52) (-1074)

/-- The number rounds to the magnitude with this code. -/
def RoundsTo (r : ℚ) (code : ℕ) : Prop :=
  ∃ m, IsNearestInt (r / 2 ^ lastPlace r) m ∧ code = (lastPlace r + 1074).toNat * 2 ^ 52 + m

theorem lastPlace_mono {r s : ℚ} (hr : 0 < r) (hrs : r ≤ s) : lastPlace r ≤ lastPlace s := by
  have hlog := Int.log_mono_right (b := 2) hr hrs
  unfold lastPlace
  omega

theorem le_of_isNearestInt {r : ℚ} {m : ℕ} (hm : IsNearestInt (r / 2 ^ lastPlace r) m) :
    m ≤ 2 ^ 53 := by
  have hlog : Int.log 2 r + 1 ≤ 53 + lastPlace r := by
    unfold lastPlace
    omega
  have hlt : r / 2 ^ lastPlace r < 2 ^ 53 := by
    rw [div_lt_iff₀ (two_zpow_pos _)]
    calc r < (2 : ℚ) ^ (Int.log 2 r + 1) := by exact_mod_cast Int.lt_zpow_succ_log_self one_lt_two r
      _ ≤ 2 ^ (53 + lastPlace r) := zpow_le_zpow_right₀ one_le_two hlog
      _ = 2 ^ 53 * 2 ^ lastPlace r := by rw [zpow_add₀ two_ne_zero]; norm_num
  have hlow := hm.low
  have hcast : (m : ℚ) < 2 ^ 53 + 1 := by linarith
  exact Nat.le_of_lt_succ (by exact_mod_cast hcast)

theorem le_of_isNearestInt_of_lt {r : ℚ} (hr : 0 < r) {m : ℕ} (hlt : -1074 < lastPlace r)
    (hm : IsNearestInt (r / 2 ^ lastPlace r) m) : 2 ^ 52 ≤ m := by
  have hlog : 52 + lastPlace r = Int.log 2 r := by
    unfold lastPlace at hlt ⊢
    omega
  have hle : 2 ^ 52 ≤ r / 2 ^ lastPlace r := by
    rw [le_div_iff₀ (two_zpow_pos _)]
    calc (2 : ℚ) ^ 52 * 2 ^ lastPlace r = 2 ^ (52 + lastPlace r) := by
          rw [zpow_add₀ two_ne_zero]; norm_num
      _ = 2 ^ Int.log 2 r := by rw [hlog]
      _ ≤ r := by exact_mod_cast Int.zpow_log_le_self one_lt_two hr
  have hhigh := hm.high
  have hcast : (2 : ℚ) ^ 52 < m + 1 := by linarith
  exact Nat.le_of_lt_succ (by exact_mod_cast hcast)

/-- **A larger number has no smaller code.** -/
theorem RoundsTo.mono {r s : ℚ} {a b : ℕ} (hr : 0 < r) (hrs : r ≤ s) (ha : RoundsTo r a)
    (hb : RoundsTo s b) : a ≤ b := by
  obtain ⟨m, hm, rfl⟩ := ha
  obtain ⟨n, hn, rfl⟩ := hb
  have hfloor : -1074 ≤ lastPlace r := le_max_right _ _
  rcases (lastPlace_mono hr hrs).eq_or_lt with heq | hlt
  · rw [← heq] at hn ⊢
    have hle := hm.mono ((div_le_div_iff_of_pos_right (two_zpow_pos _)).mpr hrs) hn
    omega
  · have hm' := le_of_isNearestInt hm
    have hn' := le_of_isNearestInt_of_lt (hr.trans_le hrs) (by omega) hn
    have hcode : (lastPlace r + 1074).toNat + 1 ≤ (lastPlace s + 1074).toNat := by omega
    omega

theorem RoundsTo.unique {r : ℚ} {a b : ℕ} (hr : 0 < r) (ha : RoundsTo r a) (hb : RoundsTo r b) :
    a = b :=
  Nat.le_antisymm (ha.mono hr le_rfl hb) (hb.mono hr le_rfl ha)

/-- **`nearest` finds the code of its quotient.** -/
theorem exists_roundsTo (negative : Bool) {num den : ℕ} (hnum : 0 < num) (hden : 0 < den) :
    ∃ code, RoundsTo (num / den) code ∧ nearest negative num den =
      if h : code < magnitudes then finite ⟨negative, ⟨code, h⟩⟩ else infinite negative := by
  have hplace : max (log2Div num den - 52) (-1074) = lastPlace (num / den) := by
    rw [log2Div_eq hnum hden, lastPlace]
  have hscaled : ((num * 2 ^ (-lastPlace (num / den)).toNat : ℕ) : ℚ) /
      (den * 2 ^ (lastPlace (num / den)).toNat : ℕ) = num / den / 2 ^ lastPlace (num / den) := by
    rw [zpow_eq_div two_ne_zero]
    push_cast
    field_simp
  have hnear := isNearestInt_roundDiv (num * 2 ^ (-lastPlace (num / den)).toNat)
    (Nat.mul_pos hden (Nat.pow_pos (n := (lastPlace (num / den)).toNat) two_pos))
  rw [hscaled] at hnear
  refine ⟨_, ⟨_, hnear, rfl⟩, ?_⟩
  simp only [nearest, if_neg hnum.ne', hplace]

end Double

namespace FiniteDouble

variable {x y : FiniteDouble} {r : ℚ}

/-! ## Values -/

/-- The number that the magnitude stands for. -/
def size (x : FiniteDouble) : ℚ := x.significand * 2 ^ x.exponent

theorem neg_1074_le_exponent (x : FiniteDouble) : -1074 ≤ x.exponent := by
  unfold exponent
  omega

theorem significand_lt (x : FiniteDouble) : x.significand < 2 ^ 53 := by
  have hfraction : x.fraction < 2 ^ 52 := Nat.mod_lt _ (Nat.two_pow_pos 52)
  unfold significand
  split <;> omega

theorem le_significand (h : -1074 < x.exponent) : 2 ^ 52 ≤ x.significand := by
  have hbiased : x.biased ≠ 0 := by
    unfold exponent at h
    omega
  rw [significand, if_neg hbiased]
  exact Nat.le_add_right _ _

theorem magnitude_eq (x : FiniteDouble) :
    x.magnitude.val = (x.exponent + 1074).toNat * 2 ^ 52 + x.significand := by
  have hcode : x.biased * 2 ^ 52 + x.fraction = x.magnitude.val := Nat.div_add_mod' _ _
  unfold exponent significand
  split <;> omega

theorem eq_zero_of_significand {x : FiniteDouble} (hx : x.significand = 0) :
    x = .zero x.negative := by
  have hmagnitude : x.magnitude.val = 0 := by
    have hexponent : x.exponent = -1074 := by
      by_contra hne
      have := le_significand (x.neg_1074_le_exponent.lt_of_ne (Ne.symm hne))
      omega
    rw [magnitude_eq, hx, hexponent]
    rfl
  obtain ⟨sign, code, hcode⟩ := x
  obtain rfl : code = 0 := hmagnitude
  rfl

/-- **Codes are in the order of the numbers they stand for.** -/
theorem size_le_size (h : x.magnitude.val ≤ y.magnitude.val) : x.size ≤ y.size := by
  have hx := x.significand_lt
  have hy := y.significand_lt
  have hfloor := x.neg_1074_le_exponent
  rw [magnitude_eq, magnitude_eq] at h
  rcases lt_trichotomy x.exponent y.exponent with hlt | heq | hgt
  · have hfull := le_significand (hfloor.trans_lt hlt)
    calc x.size ≤ 2 ^ 53 * 2 ^ x.exponent :=
          mul_le_mul_of_nonneg_right (by exact_mod_cast hx.le) (Double.two_zpow_pos _).le
      _ = 2 ^ 52 * 2 ^ (x.exponent + 1) := by rw [zpow_add_one₀ two_ne_zero]; ring
      _ ≤ 2 ^ 52 * 2 ^ y.exponent :=
          mul_le_mul_of_nonneg_left (zpow_le_zpow_right₀ one_le_two hlt) (by norm_num)
      _ ≤ y.size :=
          mul_le_mul_of_nonneg_right (by exact_mod_cast hfull) (Double.two_zpow_pos _).le
  · have hle : x.significand ≤ y.significand := by omega
    rw [size, size, heq]
    exact mul_le_mul_of_nonneg_right (by exact_mod_cast hle) (Double.two_zpow_pos _).le
  · have hfull := le_significand (y.neg_1074_le_exponent.trans_lt hgt)
    have hfloor' := y.neg_1074_le_exponent
    omega

/-! ## The numbers that round to a double -/

/-- The number rounds to the magnitude: it lies between the middles to the two neighbours, and in a
middle only if the significand is even. -/
structure Holds (x : FiniteDouble) (r : ℚ) : Prop where
  low : (4 * x.significand - x.lowerGap) * 2 ^ (x.exponent - 2) ≤ r
  high : r ≤ (4 * x.significand + 2) * 2 ^ (x.exponent - 2)
  even : r = (4 * x.significand - x.lowerGap) * 2 ^ (x.exponent - 2) ∨
    r = (4 * x.significand + 2) * 2 ^ (x.exponent - 2) → x.significand % 2 = 0

theorem one_le_lowerGap (x : FiniteDouble) : 1 ≤ x.lowerGap := by
  unfold lowerGap
  split <;> omega

theorem lowerGap_le_two (x : FiniteDouble) : x.lowerGap ≤ 2 := by
  unfold lowerGap
  split <;> omega

/-- Where the significand is the least one of its exponent, the next smaller magnitude is nearer. -/
theorem lowerGap_eq_one (hexponent : -1074 < x.exponent) (hsignificand : x.significand = 2 ^ 52) :
    x.lowerGap = 1 := by
  have hbiased : 1 < x.biased := by
    unfold exponent at hexponent
    omega
  rw [significand, if_neg (by omega)] at hsignificand
  rw [lowerGap, if_pos ⟨by omega, hbiased⟩]

theorem quarter (q : ℤ) : (2 : ℚ) ^ (q - 2) = 2 ^ q / 4 := by
  rw [zpow_sub₀ two_ne_zero]
  norm_num

theorem holds_size (x : FiniteDouble) : x.Holds x.size := by
  have hpow := Double.two_zpow_pos x.exponent
  have hgap : (1 : ℚ) ≤ x.lowerGap := by exact_mod_cast x.one_le_lowerGap
  have hbelow : (4 * x.significand - x.lowerGap) * 2 ^ (x.exponent - 2) < x.size := by
    rw [quarter, size]
    nlinarith
  have habove : x.size < (4 * x.significand + 2) * 2 ^ (x.exponent - 2) := by
    rw [quarter, size]
    nlinarith
  exact ⟨hbelow.le, habove.le, fun h => absurd h (not_or.mpr ⟨hbelow.ne', habove.ne⟩)⟩

theorem Holds.lt (h : x.Holds r) : r < 2 ^ (x.exponent + 53) := by
  have hpow := Double.two_zpow_pos x.exponent
  have hsucc : (x.significand : ℚ) + 1 ≤ 2 ^ 53 := by exact_mod_cast x.significand_lt
  have hhigh := h.high
  rw [quarter] at hhigh
  rw [zpow_add₀ two_ne_zero, zpow_ofNat]
  nlinarith

/-- A number below the exponent of the double is rounded up to the least significand. -/
theorem Holds.significand_eq (h : x.Holds r) (hexponent : -1074 < x.exponent)
    (hbelow : r < 2 ^ (x.exponent + 52)) : x.significand = 2 ^ 52 := by
  have hpow := Double.two_zpow_pos x.exponent
  have hgap : (x.lowerGap : ℚ) ≤ 2 := by exact_mod_cast x.lowerGap_le_two
  have hlow := h.low
  rw [quarter] at hlow
  rw [zpow_add₀ two_ne_zero, zpow_ofNat] at hbelow
  have hcast : (x.significand : ℚ) < 2 ^ 52 + 1 := by nlinarith
  exact Nat.le_antisymm (Nat.le_of_lt_succ (by exact_mod_cast hcast)) (le_significand hexponent)

/-- There the last place is half as large, and the significand is carried. -/
theorem Holds.roundsTo_of_lt (hr : 0 < r) (h : x.Holds r) (hexponent : -1074 < x.exponent)
    (hbelow : r < 2 ^ (x.exponent + 52)) : Double.RoundsTo r x.magnitude.val := by
  have hsignificand := h.significand_eq hexponent hbelow
  have hpow := Double.two_zpow_pos (x.exponent - 1)
  have hhalf : (2 : ℚ) ^ x.exponent = 2 * 2 ^ (x.exponent - 1) := by
    rw [zpow_sub_one₀ two_ne_zero]
    ring
  have hlow := h.low
  rw [quarter, lowerGap_eq_one hexponent hsignificand, hsignificand, hhalf] at hlow
  push_cast at hlow
  have hbottom : (2 : ℚ) ^ (x.exponent + 51) ≤ r := by
    rw [zpow_add₀ two_ne_zero, zpow_ofNat, hhalf]
    nlinarith
  have hlast : Double.lastPlace r = x.exponent - 1 := by
    have hlogbelow := (Int.lt_zpow_iff_log_lt one_lt_two hr).mp (by exact_mod_cast hbelow)
    have hlogbottom := (Int.zpow_le_iff_le_log one_lt_two hr).mp (by exact_mod_cast hbottom)
    unfold Double.lastPlace
    omega
  rw [zpow_add₀ two_ne_zero, zpow_ofNat, hhalf] at hbelow
  refine ⟨2 ^ 53, ?_, by rw [magnitude_eq, hsignificand, hlast]; omega⟩
  rw [hlast]
  have hupper : r / 2 ^ (x.exponent - 1) < 2 ^ 53 := by
    rw [div_lt_iff₀ hpow]
    linarith
  have hlower : (2 : ℚ) ^ 53 - 1 / 2 ≤ r / 2 ^ (x.exponent - 1) := by
    rw [le_div_iff₀ hpow]
    linarith
  exact ⟨by exact_mod_cast hlower, by push_cast; linarith, fun _ => rfl⟩

/-- **What lies between the middles is rounded to the double.** -/
theorem Holds.roundsTo (hr : 0 < r) (h : x.Holds r) : Double.RoundsTo r x.magnitude.val := by
  by_cases hbelow : -1074 < x.exponent ∧ r < 2 ^ (x.exponent + 52)
  · exact h.roundsTo_of_lt hr hbelow.1 hbelow.2
  have hlast : Double.lastPlace r = x.exponent := by
    have hfloor := x.neg_1074_le_exponent
    have hlogtop := (Int.lt_zpow_iff_log_lt one_lt_two hr).mp (by exact_mod_cast h.lt)
    have hlogbottom : x.exponent = -1074 ∨ x.exponent + 52 ≤ Int.log 2 r := by
      rcases not_and_or.mp hbelow with hsmall | hnot
      · exact .inl (by omega)
      · exact .inr ((Int.zpow_le_iff_le_log one_lt_two hr).mp (by exact_mod_cast not_lt.mp hnot))
    unfold Double.lastPlace
    omega
  have hpow := Double.two_zpow_pos x.exponent
  have hgap : (x.lowerGap : ℚ) ≤ 2 := by exact_mod_cast x.lowerGap_le_two
  obtain ⟨hlow, hhigh, heven⟩ := h
  rw [quarter] at hlow hhigh heven
  refine ⟨x.significand, ?_, by rw [magnitude_eq, hlast]⟩
  rw [hlast]
  refine ⟨?_, ?_, ?_⟩
  · rw [le_div_iff₀ hpow]
    nlinarith
  · rw [div_le_iff₀ hpow]
    linarith
  · rintro (hmiddle | hmiddle)
    · rw [div_eq_iff hpow.ne'] at hmiddle
      exact heven (.inl (by nlinarith))
    · rw [div_eq_iff hpow.ne'] at hmiddle
      exact heven (.inr (by linarith))

end FiniteDouble

namespace Double

variable {x y : FiniteDouble}

/-- **A quotient between the middles is rounded to the double.** -/
theorem nearest_of_holds {num den : ℕ} (hnum : 0 < num) (hden : 0 < den)
    (h : x.Holds (num / den)) : nearest x.negative num den = finite x := by
  have hpos : (0 : ℚ) < num / den := div_pos (by exact_mod_cast hnum) (by exact_mod_cast hden)
  obtain ⟨code, hcode, hnearest⟩ := exists_roundsTo x.negative hnum hden
  obtain rfl := hcode.unique hpos (h.roundsTo hpos)
  rw [hnearest, dif_pos x.magnitude.isLt]

/-- **What is no larger than a quotient that has a nearest double has one**, and no larger one. -/
theorem exists_nearest_of_le {num den num' den' : ℕ} (hden : 0 < den) (hden' : 0 < den')
    (hle : (num / den : ℚ) ≤ num' / den') {negative' : Bool}
    (hy : nearest negative' num' den' = finite y) (negative : Bool) :
    ∃ x, nearest negative num den = finite x ∧ x.magnitude.val ≤ y.magnitude.val := by
  rcases num.eq_zero_or_pos with rfl | hnum
  · exact ⟨.zero negative, if_pos rfl, Nat.zero_le _⟩
  · have hpos : (0 : ℚ) < num / den := div_pos (by exact_mod_cast hnum) (by exact_mod_cast hden)
    have hnum' : 0 < num' := by
      have hpos' : (0 : ℚ) < num' := by
        have := mul_pos (hpos.trans_le hle) (by exact_mod_cast hden' : (0 : ℚ) < den')
        rwa [div_mul_cancel₀ _ (by exact_mod_cast hden'.ne')] at this
      exact_mod_cast hpos'
    obtain ⟨code, hcode, hnearest⟩ := exists_roundsTo negative hnum hden
    obtain ⟨code', hcode', hnearest'⟩ := exists_roundsTo negative' hnum' hden'
    have hmono := hcode.mono hpos hle hcode'
    rw [hnearest'] at hy
    split at hy
    · next hlt =>
      cases hy
      exact ⟨⟨negative, code, hmono.trans_lt hlt⟩, by rw [hnearest, dif_pos], hmono⟩
    · cases hy

/-! ## Whole numbers -/

theorem exists_nearest_one_of_le {n n' : ℕ} (h : n ≤ n') {negative' : Bool}
    (hy : nearest negative' n' 1 = finite y) (negative : Bool) :
    ∃ x, nearest negative n 1 = finite x ∧ x.magnitude.val ≤ y.magnitude.val := by
  have hle : (n / (1 : ℕ) : ℚ) ≤ n' / (1 : ℕ) := by
    rw [Nat.cast_one, div_one, div_one]
    exact_mod_cast h
  exact exists_nearest_of_le one_pos one_pos hle hy negative

/-- `2 ^ 64`. -/
def twoTo64 : FiniteDouble := ⟨false, 1087 * 2 ^ 52, by decide⟩

theorem nearest_two_pow_64 : nearest false (2 ^ 64) 1 = finite twoTo64 := by decide +kernel

/-- **A number of 64 bits, or the next one, has a nearest double.** -/
theorem exists_nearest_one (negative : Bool) {n : Nat} (h : n ≤ 2 ^ 64) :
    ∃ x, nearest negative n 1 = finite x := by
  obtain ⟨x, hx, -⟩ := exists_nearest_one_of_le h nearest_two_pow_64 negative
  exact ⟨x, hx⟩

theorem exists_ofInt {i : Int} (hlow : -2 ^ 63 ≤ i) (hhigh : i < 2 ^ 64) :
    ∃ x, ofInt i = finite x :=
  exists_nearest_one _ (by omega)

end Double

end PortableQuery
