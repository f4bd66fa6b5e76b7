import PortableQuery.Json.Printer
import PortableQuery.Proofs.Json.Numeral

set_option autoImplicit false

/-!
# Printed numbers are read back

An integer of 64 bits is read as it is. A double is printed as its shortest decimal, and the exact
reading gives the double itself; the other reading may give another one, but it gives one.
-/

namespace PortableQuery

open JsonReader

namespace FiniteDouble

theorem shortest_zero {x : FiniteDouble} (h : x.shortest.1 = 0) : x.shortest.2 = 0 := by
  by_cases hx : x.significand = 0
  · rw [shortest, if_pos hx]
  · exact absurd h (x.shortest_spec hx).2.1.ne'

theorem toList_scientific {ds : List Char} (hne : ds ≠ []) (point : Int) :
    (scientific ds point).toList = (Numeral.mk (ds.take 1) (ds.drop 1) (some (point - 1))).chars := by
  have hdigits := Digits.toList_toString (point - 1).natAbs
  obtain ⟨d, r, rfl⟩ := List.exists_cons_of_ne_nil hne
  unfold scientific Numeral.chars Numeral.exponentChars Numeral.fractionChars
  dsimp only
  simp only [String.toList_append, hdigits]
  cases r <;> split_ifs <;> simp_all

theorem toList_place {ds : List Char} (hne : ds ≠ []) (point : Int) :
    (jsonLayout.place ds point).toList =
      (if point ≤ 0 then Numeral.mk ['0'] (List.replicate (-point).toNat '0' ++ ds) none
        else if ds.length ≤ point.toNat then
          ⟨ds ++ List.replicate (point.toNat - ds.length) '0', ['0'], none⟩
        else ⟨ds.take point.toNat, ds.drop point.toNat, none⟩).chars := by
  unfold NumberLayout.place
  split_ifs with hsmall hwhole
  · simp [Numeral.chars, Numeral.fractionChars, Numeral.exponentChars, hne]
  · simp [Numeral.chars, Numeral.fractionChars, Numeral.exponentChars, jsonLayout]
  · have hdrop : ds.drop point.toNat ≠ [] := by
      rw [ne_eq, List.drop_eq_nil_iff]
      omega
    simp [Numeral.chars, Numeral.fractionChars, Numeral.exponentChars, hdrop]

/-- **A double is printed as the numeral of its shortest decimal.** -/
theorem text_eq (x : FiniteDouble) : (x.text jsonLayout).toList =
    (if x.negative then ['-'] else []) ++ (Numeral.ofDecimal x.shortest.1 x.shortest.2).chars := by
  have hzero := x.shortest_zero
  have hpoint : (if x.shortest.1 = 0 then (1 : Int)
      else (Nat.toDigits 10 x.shortest.1).length + x.shortest.2) =
        (Nat.toDigits 10 x.shortest.1).length + x.shortest.2 := by
    split
    · next h =>
      rw [h, hzero h]
      rfl
    · rfl
  have hbody : (if -5 ≤ ((Nat.toDigits 10 x.shortest.1).length : Int) + x.shortest.2 - 1 ∧
        ((Nat.toDigits 10 x.shortest.1).length : Int) + x.shortest.2 - 1 ≤ 15
      then jsonLayout.place (Nat.toDigits 10 x.shortest.1)
        ((Nat.toDigits 10 x.shortest.1).length + x.shortest.2)
      else scientific (Nat.toDigits 10 x.shortest.1)
        ((Nat.toDigits 10 x.shortest.1).length + x.shortest.2)).toList =
        (Numeral.ofDecimal x.shortest.1 x.shortest.2).chars := by
    unfold Numeral.ofDecimal
    dsimp only
    split
    · exact toList_place Nat.toDigits_ne_nil _
    · exact toList_scientific Nat.toDigits_ne_nil _
  rw [← hbody]
  unfold text
  dsimp only
  rw [hpoint]
  cases x.negative <;> simp [jsonLayout]

/-! ## Reading the numeral of a double -/

/-- The numeral that a double is printed as. -/
def numeral (x : FiniteDouble) : Numeral := .ofDecimal x.shortest.1 x.shortest.2

/-- **The exact reading of a printed double is the double.** -/
theorem decimal?_nearest (x : FiniteDouble) :
    NumberReading.decimal? x.negative x.numeral.whole x.numeral.fraction
      (x.numeral.exponent.getD 0) .nearest = some x := by
  have hread : NumberReading.decimal? x.negative x.numeral.whole x.numeral.fraction
      (x.numeral.exponent.getD 0) .nearest =
        (Double.ofScientific x.negative x.numeral.digits x.numeral.power).finite? := rfl
  rw [hread, Double.finite?_eq_some]
  by_cases hx : x.significand = 0
  · have hshortest : x.shortest = (0, 0) := if_pos hx
    have hnumeral : x.numeral.digits = 0 := by
      rw [numeral, hshortest]
      decide
    rw [hnumeral, eq_zero_of_significand hx]
    rfl
  · refine ofScientific_of_holds hx ?_
    rw [numeral, Numeral.value_ofDecimal]
    exact (x.shortest_spec hx).1

/-- The other reading scales all the digits, which fit 64 bits. -/
theorem decimal?_scaled {n : Numeral} (h : n.digits < 2 ^ 64) (negative : Bool) :
    NumberReading.decimal? negative n.whole n.fraction (n.exponent.getD 0) .scaled =
      Double.scaled? negative n.digits n.power := by
  have hvalue : Digits.value n.whole * 10 ^ n.fraction.length + Digits.value n.fraction =
      n.digits := (Digits.value_append _ _).symm
  have hwhole : Digits.absorb 0 n.whole = (Digits.value n.whole, []) := by
    have hle := Digits.le_shift (Digits.value n.whole) n.fraction
    rw [Digits.absorb_eq, Nat.zero_mul, Nat.zero_add]
    rw [Nat.zero_mul, Nat.zero_add]
    omega
  have hfraction : Digits.absorb (Digits.value n.whole) n.fraction = (n.digits, []) := by
    rw [Digits.absorb_eq (by omega), hvalue]
  rw [NumberReading.decimal?]
  simp only [hwhole, hfraction, List.length_nil, Numeral.power]
  congr 1
  omega

/-- **The shortest decimal of a double is finite in that reading, too.** -/
theorem exists_decimal?_scaled (x : FiniteDouble) :
    ∃ y, NumberReading.decimal? x.negative x.numeral.whole x.numeral.fraction
      (x.numeral.exponent.getD 0) .scaled = some y := by
  have hle : x.shortest.1 ≤ 10 ^ 19 := by
    by_cases hx : x.significand = 0
    · rw [shortest, if_pos hx]
      exact Nat.zero_le _
    · exact (x.shortest_spec hx).2.2
  rcases Numeral.digits_ofDecimal x.shortest.1 x.shortest.2 with
    ⟨hdigits, hpower⟩ | ⟨k, -, hdigits, hpower, hlt⟩
  · have hfits : x.numeral.digits < 2 ^ 64 := by
      rw [numeral, hdigits]
      exact hle.trans_lt (by decide)
    rw [decimal?_scaled hfits, numeral, hdigits, hpower]
    by_cases hx : x.significand = 0
    · have hshortest : x.shortest = (0, 0) := if_pos hx
      rw [hshortest]
      exact Double.exists_scaled_of_le x.negative (Nat.zero_le _) le_rfl (by decide) scaled_nineteen
    · exact exists_scaled_shortest hx x.negative
  · have hfits : x.numeral.digits < 2 ^ 64 := by
      rw [numeral, hdigits]
      exact hlt.trans (by decide)
    rw [decimal?_scaled hfits]
    refine Double.exists_scaled_of_neg x.negative hfits.le ?_
    rw [numeral, hpower]
    decide

/-! ## Reading the text of a double -/

/-- The double that the text of a double is read as. -/
def reread (m : NumberReading) (x : FiniteDouble) : FiniteDouble :=
  match number? m (x.text jsonLayout).toList with
  | some (.double y, _) => y
  | _ => x

theorem number?_text_eq (x : FiniteDouble) {rest : List Char} (hrest : EndsNumber rest)
    (m : NumberReading) : number? m ((x.text jsonLayout).toList ++ rest) =
      some (ofDouble (m.decimal? x.negative x.numeral.whole x.numeral.fraction
        (x.numeral.exponent.getD 0)), rest) := by
  have hdecimal : x.numeral.IsDecimal := Numeral.isDecimal_ofDecimal x.shortest_zero
  rw [← Numeral.unsigned?_chars hdecimal hrest, text_eq, List.append_assoc]
  cases x.negative with
  | true => rfl
  | false =>
    obtain ⟨c, cs, hchars, hc⟩ := hdecimal.exists_chars
    exact hchars ▸ number?_of_isDigit hc m _

/-- **The text of a double is read as that double**, whatever follows it. -/
theorem number?_text (x : FiniteDouble) {rest : List Char} (hrest : EndsNumber rest)
    (m : NumberReading) : number? m ((x.text jsonLayout).toList ++ rest) =
      some (.double (x.reread m), rest) := by
  obtain ⟨y, hy⟩ : ∃ y, m.decimal? x.negative x.numeral.whole x.numeral.fraction
      (x.numeral.exponent.getD 0) = some y := by
    cases m with
    | nearest => exact ⟨x, x.decimal?_nearest⟩
    | scaled => exact x.exists_decimal?_scaled
  have hreread : x.reread m = y := by
    rw [reread, ← List.append_nil (x.text jsonLayout).toList, x.number?_text_eq endsNumber_nil, hy]
    rfl
  rw [x.number?_text_eq hrest, hy, hreread]
  rfl

@[simp] theorem reread_nearest (x : FiniteDouble) : x.reread .nearest = x := by
  rw [reread, ← List.append_nil (x.text jsonLayout).toList, x.number?_text_eq endsNumber_nil,
    decimal?_nearest]
  rfl

end FiniteDouble

/-! ## Integers -/

namespace JsonReader

variable {rest : List Char}

theorem exists_toString (n : Nat) : ∃ c cs, (toString n).toList = c :: cs ∧ c.isDigit = true := by
  obtain ⟨c, cs, hchars⟩ := List.exists_cons_of_ne_nil
    (fun h => Digits.toString_ne_empty n (String.toList_eq_nil_iff.mp h))
  exact ⟨c, cs, hchars, Digits.isDigit_of_mem_toString (n := n) (hchars ▸ List.mem_cons_self)⟩

theorem unsigned?_toString (n : Nat) (hrest : EndsNumber rest) (m : NumberReading)
    (negative : Bool) : unsigned? m negative ((toString n).toList ++ rest) =
      some (ofInteger m negative (toString n).toList, rest) := by
  have hdigits := Digits.toList_toString n
  have hfraction : fraction? rest = some ([], rest) :=
    Numeral.fraction?_chars (List.forall_mem_nil _) fun c hc => ⟨(hrest c hc).1, (hrest c hc).2.1⟩
  have hexponent : exponent? rest = some (none, rest) := Numeral.exponent?_chars hrest none
  have hwhole := takeWhile_digits (fun c hc => Digits.isDigit_of_mem_toString (n := n) hc)
    hrest.noDigit
  refine (unsigned?_eq hwhole ?_ (fun hzero => ?_) (by rwa [List.drop_left]) hexponent m
    negative).trans (by rw [if_pos ⟨rfl, rfl⟩])
  · rw [hdigits]
    exact Nat.toDigits_ne_nil
  · rw [hdigits] at hzero ⊢
    have hn : n = 0 := by
      by_contra hne
      exact Digits.head?_toDigits_ne_zero (Nat.pos_of_ne_zero hne) hzero
    subst hn
    rfl

theorem toList_toString_int (i : Int) : (toString i).toList =
    (if i < 0 then ['-'] else []) ++ (toString i.natAbs).toList := by
  cases i with
  | ofNat n => rfl
  | negSucc n =>
    rw [if_pos (Int.negSucc_lt_zero n)]
    exact String.toList_append

/-- **An integer of 64 bits is read as it is**, whatever follows it. -/
theorem number?_int {i : Int} (hlow : -2 ^ 63 ≤ i) (hhigh : i < 2 ^ 64) (hrest : EndsNumber rest)
    (m : NumberReading) : number? m ((toString i).toList ++ rest) = some (.int i, rest) := by
  have hread := unsigned?_toString i.natAbs hrest m
  rw [toList_toString_int, List.append_assoc]
  split_ifs with hneg
  · refine (hread true).trans ?_
    simp only [ofInteger, Digits.value_toString]
    rw [if_pos trivial, if_pos ⟨by omega, by omega⟩, show -(i.natAbs : Int) = i by omega]
  · obtain ⟨c, cs, hchars, hc⟩ := exists_toString i.natAbs
    rw [List.nil_append, hchars, List.cons_append, number?_of_isDigit hc, ← List.cons_append,
      ← hchars, hread false]
    simp only [ofInteger, Digits.value_toString]
    rw [if_neg Bool.false_ne_true, if_pos (by omega), show (i.natAbs : Int) = i by omega]

end JsonReader

end PortableQuery
