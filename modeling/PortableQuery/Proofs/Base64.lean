import PortableQuery.Base64
import PortableQuery.Proofs.Text.Ascii

set_option autoImplicit false

/-!
# Base64 is read back

Bytes are written in groups of six bits, the last group being filled up with zeros and the text with
padding, if the variant pads. Reading finds no fault in that and takes the same groups.
-/

namespace PortableQuery.Base64

/-! ## The alphabet -/

/-- The byte of a six-bit number. -/
def Variant.byte (v : Variant) (n : Nat) : UInt8 := UInt8.ofNat (v.symbol n).toNat

/-- The characters of the alphabet are single bytes that are told apart, and none is padding. -/
structure Variant.Lawful (v : Variant) : Prop where
  isAscii : ∀ n < 64, (v.symbol n).toNat < 128
  byteIndex?_byte : ∀ n < 64, v.byteIndex? (v.byte n) = some n
  byte_ne_pad : ∀ n < 64, v.byte n ≠ padByte

theorem lawful_standard : standard.Lawful := ⟨by decide, by decide, by decide⟩

theorem lawful_urlSafe : urlSafe.Lawful := ⟨by decide, by decide, by decide⟩

/-! ## Groups of six bits -/

theorem lt_of_mem_sextets (bytes : List UInt8) : ∀ n ∈ sextets bytes, n < 64 := by
  fun_induction sextets bytes with
  | case1 => exact List.forall_mem_nil _
  | case2 a =>
    have ha := a.toNat_lt
    simp only [List.forall_mem_cons]
    exact ⟨by omega, by omega, List.forall_mem_nil _⟩
  | case3 a b =>
    have ha := a.toNat_lt
    have hb := b.toNat_lt
    simp only [List.forall_mem_cons]
    exact ⟨by omega, by omega, by omega, List.forall_mem_nil _⟩
  | case4 a b c rest ih =>
    have ha := a.toNat_lt
    have hb := b.toNat_lt
    have hc := c.toNat_lt
    simp only [List.forall_mem_cons]
    exact ⟨by omega, by omega, by omega, by omega, ih⟩

theorem length_sextets_mod (bytes : List UInt8) : (sextets bytes).length % 4 ≠ 1 := by
  fun_induction sextets bytes with
  | case1 | case2 | case3 => simp
  | case4 a b c rest ih =>
    simp only [List.length_cons]
    omega

theorem ofNat_eq {n : Nat} {b : UInt8} (h : n = b.toNat) : UInt8.ofNat n = b := by
  rw [h, UInt8.ofNat_toNat]

/-- **The bytes of the six-bit numbers are those they were made of, and no bit is left over.** -/
theorem bytesOf_sextets (bytes : List UInt8) : bytesOf (sextets bytes) = (bytes, true) := by
  fun_induction sextets bytes with
  | case1 => rfl
  | case2 a =>
    have ha := a.toNat_lt
    rw [bytesOf, ofNat_eq (b := a) (by omega)]
    simp
  | case3 a b =>
    have ha := a.toNat_lt
    have hb := b.toNat_lt
    rw [bytesOf, ofNat_eq (b := a) (by omega), ofNat_eq (b := b) (by omega)]
    simp
  | case4 a b c rest ih =>
    have ha := a.toNat_lt
    have hb := b.toNat_lt
    have hc := c.toNat_lt
    rw [bytesOf, ih, ofNat_eq (b := a) (by omega), ofNat_eq (b := b) (by omega),
      ofNat_eq (b := c) (by omega)]

/-! ## What is written -/

variable {v : Variant}

/-- How many padding characters follow so many others. -/
def Variant.fill (v : Variant) (symbols : Nat) : Nat :=
  if v.padded then (4 - symbols % 4) % 4 else 0

theorem toList_encode (v : Variant) (bytes : List UInt8) : (encode v bytes).toList =
    (sextets bytes).map v.symbol ++ List.replicate (v.fill (sextets bytes).length) '=' := by
  rw [encode, String.toList_ofList, List.length_map, Variant.fill]
  split <;> rfl

theorem isAscii_encode (hv : v.Lawful) (bytes : List UInt8) :
    Text.IsAscii (encode v bytes).toList := by
  rw [toList_encode, Text.isAscii_append]
  constructor
  · intro c hc
    obtain ⟨n, hn, rfl⟩ := List.mem_map.mp hc
    exact hv.isAscii n (lt_of_mem_sextets bytes n hn)
  · intro c hc
    rw [List.eq_of_mem_replicate hc]
    decide

theorem toUTF8_encode (hv : v.Lawful) (bytes : List UInt8) : (encode v bytes).toUTF8.toList =
    (sextets bytes).map v.byte ++ List.replicate (v.fill (sextets bytes).length) padByte := by
  rw [Text.toUTF8_toList (isAscii_encode hv bytes), toList_encode, List.map_append, List.map_map,
    List.map_replicate]
  rfl

/-! ## Reading -/

section Reading

variable {ns : List Nat} (hv : v.Lawful) (hns : ∀ n ∈ ns, n < 64)

include hv hns

theorem firstFault_symbols (lastBlock i : Nat) (rest : List UInt8) :
    firstFault v lastBlock i none (ns.map v.byte ++ rest) =
      firstFault v lastBlock (i + ns.length) none rest := by
  induction ns generalizing i with
  | nil => rfl
  | cons n ns ih =>
    rw [List.forall_mem_cons] at hns
    have hstep : firstFault v lastBlock i none (v.byte n :: (ns.map v.byte ++ rest)) =
        firstFault v lastBlock (i + 1) none (ns.map v.byte ++ rest) := by
      rw [firstFault.eq_def]
      simp only [hv.byte_ne_pad n hns.1, hv.byteIndex?_byte n hns.1, if_false]
    rw [List.map_cons, List.cons_append, hstep, ih hns.2, List.length_cons, Nat.add_assoc,
      Nat.add_comm 1]

theorem takeWhile_symbols (k : Nat) :
    (ns.map v.byte ++ List.replicate k padByte).takeWhile (· ≠ padByte) = ns.map v.byte := by
  rw [List.takeWhile_append_of_pos]
  · cases k <;> simp [List.replicate_succ]
  · intro b hb
    obtain ⟨n, hn, rfl⟩ := List.mem_map.mp hb
    exact decide_eq_true (hv.byte_ne_pad n (hns n hn))

theorem filterMap_symbols : (ns.map v.byte).filterMap v.byteIndex? = ns := by
  induction ns with
  | nil => rfl
  | cons n ns ih =>
    rw [List.forall_mem_cons] at hns
    rw [List.map_cons, List.filterMap_cons, hv.byteIndex?_byte n hns.1, ih hns.2]

theorem padByte_not_mem_symbols : padByte ∉ ns.map v.byte := by
  intro h
  obtain ⟨n, hn, hpad⟩ := List.mem_map.mp h
  exact hv.byte_ne_pad n (hns n hn) hpad

end Reading

/-- Padding that ends a group of four behind its second character is no fault. -/
theorem firstFault_padding {lastBlock i k : Nat} (hlast : lastBlock ≤ i)
    (hk : k = 0 ∨ 2 ≤ i % 4 ∧ i % 4 + k ≤ 4) (padding : Option Nat) :
    firstFault v lastBlock i padding (List.replicate k padByte) = none := by
  induction k generalizing i padding with
  | zero => rfl
  | succ k ih =>
    rw [List.replicate_succ, firstFault.eq_def]
    simp only [if_true, show ¬ i < lastBlock by omega, show ¬ i % 4 < 2 by omega, if_false]
    exact ih (by omega) (by omega) _

/-- **Bytes that are written are read back.** -/
theorem decode_encode (hv : v.Lawful) (bytes : List UInt8) :
    decode v (encode v bytes) = .ok bytes := by
  have hns := lt_of_mem_sextets bytes
  have hmod := length_sextets_mod bytes
  have hbytes := toUTF8_encode hv bytes
  have hsextets := bytesOf_sextets bytes
  generalize sextets bytes = ns at hns hmod hbytes hsextets
  generalize hk : v.fill ns.length = k at hbytes
  have hlen : (ns.map v.byte ++ List.replicate k padByte).length = ns.length + k := by simp
  -- the padding stands behind two or three characters and fills up their group
  have hcut : k = 0 ∨ 2 ≤ ns.length % 4 ∧ ns.length % 4 + k = 4 := by
    rw [Variant.fill] at hk
    split at hk <;> omega
  have hlength : lengthFault v (ns.map v.byte ++ List.replicate k padByte) = none := by
    rw [lengthFault, hlen, if_neg (by omega)]
  have hfault : firstFault v ((ns.length + k - 1) / 8 * 8) 0 none
      (ns.map v.byte ++ List.replicate k padByte) = none := by
    -- the last block of eight starts four characters before the end at the latest
    rw [firstFault_symbols hv hns, Nat.zero_add]
    rcases Nat.eq_zero_or_pos k with rfl | hpos
    · rfl
    · exact firstFault_padding (by omega) (by omega) none
  have hfits : paddingFits v (ns.map v.byte ++ List.replicate k padByte) = true := by
    rw [Variant.fill] at hk
    rw [paddingFits, hlen]
    split at hk
    · rw [if_pos ‹_›]
      exact decide_eq_true (by omega)
    · rw [if_neg ‹_›]
      subst hk
      simpa using padByte_not_mem_symbols hv hns
  simp only [decode, hbytes, hlen, hlength, hfault, hfits, if_true, takeWhile_symbols hv hns,
    filterMap_symbols hv hns, hsextets]

end PortableQuery.Base64
