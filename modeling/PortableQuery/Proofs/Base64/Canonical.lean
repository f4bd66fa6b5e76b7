import PortableQuery.Proofs.Base64

set_option autoImplicit false

/-!
# One text for each byte sequence

Reading base64 is as strict as writing it: characters of the alphabet only, padding that fills up
the last group and only where the variant pads, and nothing but zeros behind the last whole byte. So
a text that is read is the one that is written.
-/

namespace PortableQuery.Base64

variable {v : Variant}

/-! ## The alphabet -/

theorem Variant.symbol_of_index? {c : Char} {n : Nat} (h : v.index? c = some n) :
    n < 64 ∧ v.symbol n = c := by
  -- the three rows of the alphabet, each behind the one before it
  have hupper : 'A'.toNat = 65 := rfl
  have hlower : 'a'.toNat = 97 := rfl
  have hdigit : '0'.toNat = 48 := rfl
  unfold index? at h
  split at h
  · next hc =>
    obtain rfl := Option.some.inj h
    have hrow := Text.isUpper_iff.mp hc
    rw [symbol, if_pos (by omega), Nat.add_sub_cancel' (by omega), Char.ofNat_toNat]
    exact ⟨by omega, rfl⟩
  split at h
  · next hc =>
    obtain rfl := Option.some.inj h
    have hrow := Text.isLower_iff.mp hc
    rw [symbol, if_neg (by omega), if_pos (by omega), Nat.add_sub_cancel,
      Nat.add_sub_cancel' (by omega), Char.ofNat_toNat]
    exact ⟨by omega, rfl⟩
  split at h
  · next hc =>
    obtain rfl := Option.some.inj h
    have hrow := Text.isDigit_iff.mp hc
    rw [symbol, if_neg (by omega), if_neg (by omega), if_pos (by omega), Nat.add_sub_cancel,
      Nat.add_sub_cancel' (by omega), Char.ofNat_toNat]
    exact ⟨by omega, rfl⟩
  split at h
  · next hc =>
    obtain rfl := Option.some.inj h
    exact ⟨by decide, hc.symm⟩
  split at h
  · next hc =>
    obtain rfl := Option.some.inj h
    exact ⟨by decide, hc.symm⟩
  · cases h

/-- **A number of the alphabet has one byte.** -/
theorem Variant.byte_of_byteIndex? {b : UInt8} {n : Nat} (h : v.byteIndex? b = some n) :
    n < 64 ∧ v.byte n = b := by
  obtain ⟨hn, hsymbol⟩ := symbol_of_index? h
  have hvalid : b.toNat.isValidChar := .inl (Nat.lt_trans b.toNat_lt (by decide))
  have hchar : Char.ofNat b.toNat = Char.ofNatAux b.toNat hvalid := dif_pos hvalid
  have hbyte : (Char.ofNatAux b.toNat hvalid).toNat = b.toNat := rfl
  exact ⟨hn, by rw [byte, hsymbol, hchar, hbyte, UInt8.ofNat_toNat]⟩

/-! ## Texts without a fault -/

/-- Once padding has begun, only padding follows, and it ends with its group of four. -/
theorem eq_replicate_of_firstFault {lastBlock i p : Nat} {bs : List UInt8}
    (h : firstFault v lastBlock i (some p) bs = none) :
    bs = List.replicate bs.length padByte ∧
      (bs.length = 0 ∨ 2 ≤ i % 4 ∧ i % 4 + bs.length ≤ 4) := by
  induction bs generalizing i with
  | nil => exact ⟨rfl, .inl rfl⟩
  | cons b bs ih =>
    rw [firstFault.eq_def] at h
    dsimp only at h
    split at h
    · next hb =>
      split at h
      · cases h
      split at h
      · cases h
      · next hplace =>
        obtain ⟨hbs, hcut⟩ := ih h
        refine ⟨?_, .inr ?_⟩
        · rw [List.length_cons, List.replicate_succ, ← hbs, hb]
        · rw [List.length_cons]
          omega
    · cases h

/-- **A text without a fault is a row of symbols with padding behind it.** -/
theorem exists_of_firstFault {lastBlock i : Nat} {bs : List UInt8}
    (h : firstFault v lastBlock i none bs = none) :
    ∃ (ns : List Nat) (k : Nat), bs = ns.map v.byte ++ List.replicate k padByte ∧
      (∀ n ∈ ns, n < 64) ∧ (k = 0 ∨ 2 ≤ (i + ns.length) % 4 ∧ (i + ns.length) % 4 + k ≤ 4) := by
  induction bs generalizing i with
  | nil => exact ⟨[], 0, rfl, List.forall_mem_nil _, .inl rfl⟩
  | cons b bs ih =>
    rw [firstFault.eq_def] at h
    dsimp only at h
    split at h
    · next hb =>
      split at h
      · cases h
      split at h
      · cases h
      · next hplace =>
        obtain ⟨hbs, hcut⟩ := eq_replicate_of_firstFault h
        refine ⟨[], bs.length + 1, ?_, List.forall_mem_nil _, .inr ?_⟩
        · rw [List.map_nil, List.nil_append, List.replicate_succ, ← hbs, hb]
        · rw [List.length_nil]
          omega
    · cases hindex : v.byteIndex? b with
      | none => simp [hindex] at h
      | some n =>
        simp only [hindex] at h
        obtain ⟨hn, hbyte⟩ := Variant.byte_of_byteIndex? hindex
        obtain ⟨ns, k, hbs, hns, hcut⟩ := ih h
        refine ⟨n :: ns, k, ?_, List.forall_mem_cons.mpr ⟨hn, hns⟩, ?_⟩
        · rw [List.map_cons, List.cons_append, ← hbs, hbyte]
        · rwa [List.length_cons, Nat.add_comm ns.length, ← Nat.add_assoc]

/-! ## Groups of six bits -/

/-- **Six-bit numbers are those of the bytes that they stand for, if no bit is left over.** -/
theorem sextets_bytesOf {ns : List Nat} (hns : ∀ n ∈ ns, n < 64) (hlen : ns.length % 4 ≠ 1)
    {bytes : List UInt8} (h : bytesOf ns = (bytes, true)) : sextets bytes = ns := by
  induction ns using bytesOf.induct generalizing bytes with
  | case1 a b c d rest bytes' clean hrest ih =>
    rw [bytesOf, hrest] at h
    obtain ⟨rfl, rfl⟩ := Prod.mk.inj h
    simp only [List.forall_mem_cons] at hns
    obtain ⟨ha, hb, hc, hd, hns⟩ := hns
    simp only [List.length_cons] at hlen
    rw [sextets, ih hns (by omega) hrest]
    simp only [UInt8.toNat_ofNat']
    congr 4 <;> omega
  | case2 a b c =>
    obtain ⟨rfl, hclean⟩ := Prod.mk.inj h
    simp only [List.forall_mem_cons] at hns
    obtain ⟨ha, hb, hc, -⟩ := hns
    have hclean : c % 4 = 0 := of_decide_eq_true hclean
    rw [sextets]
    simp only [UInt8.toNat_ofNat']
    congr 3 <;> omega
  | case3 a b =>
    obtain ⟨rfl, hclean⟩ := Prod.mk.inj h
    simp only [List.forall_mem_cons] at hns
    obtain ⟨ha, hb, -⟩ := hns
    have hclean : b % 16 = 0 := of_decide_eq_true hclean
    rw [sextets]
    simp only [UInt8.toNat_ofNat']
    congr 2 <;> omega
  | case4 ns hfour hthree htwo =>
    rcases ns with _ | ⟨a, _ | ⟨b, _ | ⟨c, _ | ⟨d, rest⟩⟩⟩⟩
    · obtain ⟨rfl, -⟩ := Prod.mk.inj h
      rfl
    · exact absurd rfl hlen
    · exact absurd rfl (htwo a b)
    · exact absurd rfl (hthree a b c)
    · exact absurd rfl (hfour a b c d rest)

/-! ## Reading -/

theorem length_mod_of_lengthFault {bs : List UInt8} (h : lengthFault v bs = none) :
    bs.length % 4 ≠ 1 := by
  intro hlen
  rw [lengthFault, if_pos hlen] at h
  split at h
  · split at h <;> cases h
  · cases h

theorem fill_of_paddingFits {ns : List Nat} {k : Nat}
    (hcut : k = 0 ∨ 2 ≤ ns.length % 4 ∧ ns.length % 4 + k ≤ 4)
    (h : paddingFits v (ns.map v.byte ++ List.replicate k padByte) = true) :
    v.fill ns.length = k := by
  unfold paddingFits at h
  unfold Variant.fill
  split at h
  · next hpadded =>
    have hgroups : (ns.length + k) % 4 = 0 := by simpa using h
    rw [if_pos hpadded]
    omega
  · next hpadded =>
    rw [if_neg hpadded]
    cases k with
    | zero => rfl
    | succ k => simp [List.replicate_succ] at h

theorem encode_of_decode (hv : v.Lawful) {text : String} {bytes : List UInt8}
    (h : decode v text = .ok bytes) : encode v bytes = text := by
  unfold decode at h
  dsimp only at h
  split at h
  · cases h
  · cases h
  next hlength hfault =>
  have hmod := length_mod_of_lengthFault hlength
  obtain ⟨ns, k, hbytes, hns, hcut⟩ := exists_of_firstFault hfault
  rw [Nat.zero_add] at hcut
  rw [hbytes, List.length_append, List.length_map, List.length_replicate] at hmod
  rw [hbytes, takeWhile_symbols hv hns, filterMap_symbols hv hns] at h
  split at h
  · next hfits =>
    have hfill := fill_of_paddingFits hcut hfits
    split at h
    · next hclean =>
      obtain rfl := Except.ok.inj h
      have hsextets := sextets_bytesOf hns (by omega) (Prod.ext rfl hclean)
      apply Text.eq_of_toUTF8_toList_eq
      rw [toUTF8_encode hv, hsextets, hfill, hbytes]
    · cases h
  · cases h

/-- **A text is read as bytes exactly if it is what they are written as.** -/
theorem decode_eq_ok_iff (hv : v.Lawful) {text : String} {bytes : List UInt8} :
    decode v text = .ok bytes ↔ encode v bytes = text := by
  constructor
  · exact encode_of_decode hv
  · rintro rfl
    exact decode_encode hv bytes

end PortableQuery.Base64
