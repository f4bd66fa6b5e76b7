import PortableQuery.Json.Reader
import PortableQuery.Proofs.Number.Scaled

set_option autoImplicit false

/-!
# Numerals

A decimal in JSON text has digits before the point, and behind it a fraction, an exponent or both. It
is read by these parts, whatever follows it.
-/

namespace PortableQuery

namespace JsonReader

variable {ds rest : List Char}

/-! ## Digits -/

/-- No digit follows. -/
def NoDigit (rest : List Char) : Prop := ∀ c ∈ rest.head?, c.isDigit = false

/-- Nothing that would belong to a number follows. -/
def EndsNumber (rest : List Char) : Prop :=
  ∀ c ∈ rest.head?, c.isDigit = false ∧ c ≠ '.' ∧ c ≠ 'e' ∧ c ≠ 'E'

theorem endsNumber_nil : EndsNumber [] := nofun

theorem EndsNumber.noDigit (h : EndsNumber rest) : NoDigit rest := fun c hc => (h c hc).1

theorem takeWhile_digits (hds : ∀ c ∈ ds, c.isDigit = true) (hrest : NoDigit rest) :
    (ds ++ rest).takeWhile Char.isDigit = ds := by
  rw [List.takeWhile_append_of_pos hds]
  cases rest with
  | nil => simp
  | cons c cs => simp [hrest c rfl]

theorem exponentDigits?_append (hds : ∀ c ∈ ds, c.isDigit = true) (hne : ds ≠ [])
    (hrest : NoDigit rest) :
    exponentDigits? (ds ++ rest) = some (Digits.value ds, rest) := by
  rw [exponentDigits?]
  simp only [takeWhile_digits hds hrest, List.drop_left]
  rw [if_neg (by simpa using hne)]

theorem unsigned?_eq {cs whole fraction tail : List Char} {e : Option Int}
    (hwhole : cs.takeWhile Char.isDigit = whole) (hne : whole ≠ [])
    (hleading : whole.head? = some '0' → whole.length = 1)
    (hfraction : fraction? (cs.drop whole.length) = some (fraction, tail))
    (hexponent : exponent? tail = some (e, rest)) (m : NumberReading) (negative : Bool) :
    unsigned? m negative cs = some
      (if fraction = [] ∧ e = none then ofInteger m negative whole
        else ofDouble (m.decimal? negative whole fraction (e.getD 0)), rest) := by
  have hallowed : ¬(whole.isEmpty ∨ (whole.head? = some '0' ∧ 1 < whole.length)) := by
    rintro (hempty | ⟨hzero, hlong⟩)
    · exact hne (List.isEmpty_iff.mp hempty)
    · exact absurd (hleading hzero) hlong.ne'
  subst hwhole
  unfold unsigned?
  dsimp only
  rw [if_neg hallowed, hfraction]
  simp only [Option.bind_eq_bind, Option.bind_some, hexponent, List.isEmpty_iff,
    Option.isNone_iff_eq_none]
  split <;> rfl

theorem number?_of_isDigit {c : Char} (hc : c.isDigit = true) (m : NumberReading)
    (cs : List Char) : number? m (c :: cs) = unsigned? m false (c :: cs) := by
  have hminus : c ≠ '-' := by
    rintro rfl
    cases hc
  unfold number?
  split
  · next heq => exact absurd (List.cons.inj heq).1 hminus
  · rfl

end JsonReader

open JsonReader

/-! ## Numerals -/

/-- A decimal as it is written: the digits before the point, those behind it, and an exponent. -/
structure Numeral where
  whole : List Char
  fraction : List Char
  exponent : Option Int

namespace Numeral

/-- The characters of an exponent. -/
def exponentChars : Option Int → List Char
  | none => []
  | some e => 'e' :: (if e < 0 then '-' else '+') :: Nat.toDigits 10 e.natAbs

/-- The characters of a fraction. -/
def fractionChars (ds : List Char) : List Char := if ds = [] then [] else '.' :: ds

/-- The characters of a numeral. -/
def chars (n : Numeral) : List Char :=
  n.whole ++ (fractionChars n.fraction ++ exponentChars n.exponent)

/-- A numeral that JSON allows and that is not an integer. -/
structure IsDecimal (n : Numeral) : Prop where
  whole_ne_nil : n.whole ≠ []
  leading : n.whole.head? = some '0' → n.whole.length = 1
  isDigit : ∀ c ∈ n.whole ++ n.fraction, c.isDigit = true
  not_integer : n.fraction = [] → n.exponent ≠ none

theorem IsDecimal.exists_chars {n : Numeral} (h : n.IsDecimal) :
    ∃ c cs, n.chars = c :: cs ∧ c.isDigit = true := by
  obtain ⟨c, cs, hwhole⟩ := List.exists_cons_of_ne_nil h.whole_ne_nil
  refine ⟨c, _, by rw [chars, hwhole, List.cons_append], h.isDigit c ?_⟩
  simp [hwhole]

theorem exponent?_chars {rest : List Char} (h : EndsNumber rest) (e : Option Int) :
    exponent? (exponentChars e ++ rest) = some (e, rest) := by
  cases e with
  | none =>
    cases rest with
    | nil => rfl
    | cons c cs =>
      obtain ⟨-, -, he, hE⟩ := h c rfl
      rw [exponentChars, List.nil_append, exponent?.eq_def]
      exact if_neg (not_or.mpr ⟨he, hE⟩)
  | some e =>
    have hdigits := exponentDigits?_append (fun c hc => Digits.isDigit_of_mem_toDigits hc)
      (Nat.toDigits_ne_nil (b := 10) (n := e.natAbs)) h.noDigit
    rw [Digits.value_toDigits] at hdigits
    have hminus (r : List Char) : exponent? ('e' :: '-' :: r) =
        (exponentDigits? r).map fun p => (some (-(p.1 : ℤ)), p.2) := rfl
    have hplus (r : List Char) : exponent? ('e' :: '+' :: r) =
        (exponentDigits? r).map fun p => (some (p.1 : ℤ), p.2) := rfl
    rw [exponentChars, List.cons_append, List.cons_append]
    split_ifs with hneg
    · rw [hminus, hdigits, Option.map_some, show -(e.natAbs : ℤ) = e by omega]
    · rw [hplus, hdigits, Option.map_some, show (e.natAbs : ℤ) = e by omega]

theorem exponentChars_ends {rest : List Char} (h : EndsNumber rest) (e : Option Int) :
    ∀ c ∈ (exponentChars e ++ rest).head?, c.isDigit = false ∧ c ≠ '.' := by
  intro c hc
  cases e with
  | none => exact ⟨(h c hc).1, (h c hc).2.1⟩
  | some e =>
    obtain rfl : 'e' = c := Option.some.inj hc
    exact ⟨rfl, by decide⟩

theorem fraction?_chars {ds tail : List Char} (hds : ∀ c ∈ ds, c.isDigit = true)
    (htail : ∀ c ∈ tail.head?, c.isDigit = false ∧ c ≠ '.') :
    fraction? (fractionChars ds ++ tail) = some (ds, tail) := by
  rw [fractionChars]
  split_ifs with hnil
  · subst hnil
    rw [List.nil_append, fraction?.eq_def]
    split
    · exact absurd rfl (htail '.' rfl).2
    · rfl
  · rw [List.cons_append, fraction?]
    simp only [takeWhile_digits hds fun c hc => (htail c hc).1, List.drop_left]
    rw [if_neg (by simpa using hnil)]

/-- **A decimal is read by its parts**, whatever follows it. -/
theorem unsigned?_chars {n : Numeral} (hn : n.IsDecimal) {rest : List Char}
    (hrest : EndsNumber rest) (m : NumberReading) (negative : Bool) :
    unsigned? m negative (n.chars ++ rest) =
      some (ofDouble (m.decimal? negative n.whole n.fraction (n.exponent.getD 0)), rest) := by
  have hdigits := hn.isDigit
  simp only [List.forall_mem_append] at hdigits
  have hends := exponentChars_ends hrest n.exponent
  have hwhole : (n.chars ++ rest).takeWhile Char.isDigit = n.whole := by
    rw [chars, List.append_assoc]
    refine takeWhile_digits hdigits.1 fun c hc => ?_
    rw [fractionChars, List.append_assoc] at hc
    split_ifs at hc with hnil
    · exact (hends c hc).1
    · obtain rfl : '.' = c := Option.some.inj hc
      rfl
  have htail : (n.chars ++ rest).drop n.whole.length =
      fractionChars n.fraction ++ (exponentChars n.exponent ++ rest) := by
    rw [chars, List.append_assoc, List.drop_left, List.append_assoc]
  rw [unsigned?_eq hwhole hn.whole_ne_nil hn.leading
    (htail ▸ fraction?_chars hdigits.2 hends) (exponent?_chars hrest _)]
  rw [if_neg fun h => hn.not_integer h.1 h.2]

/-- The integer of all its digits. -/
def digits (n : Numeral) : Nat := Digits.value (n.whole ++ n.fraction)

/-- The power of ten that they count. -/
def power (n : Numeral) : Int := n.exponent.getD 0 - n.fraction.length

/-- `c · 10 ^ j` as JSON text writes it. -/
def ofDecimal (c : Nat) (j : Int) : Numeral :=
  let ds := Nat.toDigits 10 c
  let point : Int := ds.length + j
  if -5 ≤ point - 1 ∧ point - 1 ≤ 15 then
    if point ≤ 0 then ⟨['0'], List.replicate (-point).toNat '0' ++ ds, none⟩
    else if ds.length ≤ point.toNat then
      ⟨ds ++ List.replicate (point.toNat - ds.length) '0', ['0'], none⟩
    else ⟨ds.take point.toNat, ds.drop point.toNat, none⟩
  else ⟨ds.take 1, ds.drop 1, some (point - 1)⟩

section OfDecimal

variable {c : Nat} {j : Int}

theorem isDecimal_ofDecimal (h : c = 0 → j = 0) : (ofDecimal c j).IsDecimal := by
  have hne : Nat.toDigits 10 c ≠ [] := Nat.toDigits_ne_nil
  have hlength : 0 < (Nat.toDigits 10 c).length := List.length_pos_iff.mpr hne
  have hdigits : ∀ x ∈ Nat.toDigits 10 c, x.isDigit = true :=
    fun x hx => Digits.isDigit_of_mem_toDigits hx
  have hzeros (k : Nat) : ∀ x ∈ List.replicate k '0', x.isDigit = true := fun x hx => by
    rw [List.eq_of_mem_replicate hx]
    rfl
  have hleading : (Nat.toDigits 10 c).head? = some '0' → c = 0 := fun hzero => by
    by_contra hc
    exact Digits.head?_toDigits_ne_zero (Nat.pos_of_ne_zero hc) hzero
  unfold ofDecimal
  dsimp only
  split_ifs with hplain hsmall hwhole
  · refine ⟨by simp, fun _ => rfl, ?_, by simp [hne]⟩
    simp only [List.forall_mem_append]
    exact ⟨hzeros 1, hzeros _, hdigits⟩
  · refine ⟨by simp [hne], fun hzero => ?_, ?_, by simp⟩
    · have hc : c = 0 := hleading (by rwa [List.head?_append_of_ne_nil _ hne] at hzero)
      obtain rfl := h hc
      subst hc
      decide
    · simp only [List.forall_mem_append]
      exact ⟨⟨hdigits, hzeros _⟩, hzeros 1⟩
  · refine ⟨?_, fun hzero => ?_, ?_, ?_⟩
    · rw [ne_eq, List.take_eq_nil_iff, not_or]
      exact ⟨by omega, hne⟩
    · have hc : c = 0 := hleading (by
        rw [List.head?_take, if_neg (by omega)] at hzero
        exact hzero)
      obtain rfl := h hc
      omega
    · rwa [List.take_append_drop]
    · rw [List.drop_eq_nil_iff]
      omega
  · refine ⟨?_, fun _ => ?_, ?_, by simp⟩
    · rw [ne_eq, List.take_eq_nil_iff, not_or]
      exact ⟨by omega, hne⟩
    · rw [List.length_take]
      omega
    · rwa [List.take_append_drop]

/-- The digits are those of the decimal, but for a zero behind the point of a whole number. -/
theorem digits_ofDecimal (c : Nat) (j : Int) :
    ((ofDecimal c j).digits = c ∧ (ofDecimal c j).power = j) ∨
      ∃ k : Nat, j = k ∧ (ofDecimal c j).digits = c * 10 ^ (k + 1) ∧
        (ofDecimal c j).power = -1 ∧ c * 10 ^ (k + 1) < 10 ^ 17 := by
  have hlength : 0 < (Nat.toDigits 10 c).length := List.length_pos_iff.mpr Nat.toDigits_ne_nil
  have hvalue := Digits.value_toDigits c
  unfold ofDecimal
  dsimp only
  split_ifs with hplain hsmall hwhole
  · refine .inl ⟨?_, ?_⟩
    · simp [digits, Digits.value_append, Digits.value_cons, Digits.value_replicate_zero, hvalue,
        Digits.digit]
    · simp only [power, Option.getD_none, List.length_append, List.length_replicate]
      omega
  · obtain ⟨k, rfl⟩ : ∃ k : Nat, j = k := ⟨j.toNat, by omega⟩
    have hk : ((Nat.toDigits 10 c).length + (k : Int)).toNat - (Nat.toDigits 10 c).length = k := by
      omega
    have hc : c < 10 ^ (Nat.toDigits 10 c).length :=
      (Nat.length_toDigits_le_iff (by decide) hlength).mp le_rfl
    refine .inr ⟨k, rfl, ?_, rfl, ?_⟩
    · rw [digits, hk]
      simp [Digits.value_append, Digits.value_cons, Digits.value_replicate_zero, hvalue,
        Digits.digit, Nat.pow_succ]
    · calc c * 10 ^ (k + 1) < 10 ^ (Nat.toDigits 10 c).length * 10 ^ (k + 1) :=
            Nat.mul_lt_mul_of_pos_right hc (Nat.pow_pos (by decide))
        _ = 10 ^ ((Nat.toDigits 10 c).length + (k + 1)) := (Nat.pow_add ..).symm
        _ ≤ 10 ^ 17 := Nat.pow_le_pow_right (by decide) (by omega)
  · refine .inl ⟨?_, ?_⟩
    · rw [digits, List.take_append_drop, hvalue]
    · simp only [power, Option.getD_none, List.length_drop]
      omega
  · refine .inl ⟨?_, ?_⟩
    · rw [digits, List.take_append_drop, hvalue]
    · simp only [power, Option.getD_some, List.length_drop]
      omega

theorem value_ofDecimal (c : Nat) (j : Int) :
    ((ofDecimal c j).digits : ℚ) * 10 ^ (ofDecimal c j).power = c * 10 ^ j := by
  rcases digits_ofDecimal c j with ⟨hdigits, hpower⟩ | ⟨k, rfl, hdigits, hpower, -⟩
  · rw [hdigits, hpower]
  · rw [hdigits, hpower, zpow_neg_one, zpow_natCast, Nat.cast_mul, Nat.cast_pow, Nat.cast_ofNat,
      pow_succ, ← mul_assoc, mul_inv_cancel_right₀ (by norm_num)]

end OfDecimal

end Numeral

end PortableQuery
