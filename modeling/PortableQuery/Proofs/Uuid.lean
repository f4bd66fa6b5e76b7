import PortableQuery.Proofs.Json.Quoted
import PortableQuery.Uuid

set_option autoImplicit false

/-!
# Identifiers are read back

* **`Uuid.read?_text`**: a written identifier is read back.
-/

namespace PortableQuery.Uuid

theorem length_flatMap_byteText (bs : List UInt8) :
    (bs.flatMap byteText).length = 2 * bs.length := by
  induction bs with
  | nil => rfl
  | cons b bs ih =>
    rw [List.flatMap_cons, List.length_append, ih, List.length_cons, byteText]
    simp only [List.length_cons, List.length_nil]
    omega

/-- **The digits of bytes are read as the bytes.** -/
theorem hexBytes?_flatMap (bs : List UInt8) : hexBytes? (bs.flatMap byteText) = some bs := by
  induction bs with
  | nil => rfl
  | cons b bs ih =>
    have hb : b.toNat < 256 := b.toNat_lt
    have hvalue : UInt8.ofNat (16 * (b.toNat / 16) + b.toNat % 16) = b := by
      rw [Nat.div_add_mod, UInt8.ofNat_toNat]
    rw [List.flatMap_cons, byteText, List.cons_append, List.cons_append, List.nil_append, hexBytes?,
      hexDigit, hexDigit, JsonText.hexValue?_digitChar (by omega),
      JsonText.hexValue?_digitChar (by omega), ih]
    simp only [Option.bind_eq_bind, Option.bind_some, Option.pure_def, hvalue]

theorem undashed?_groups {a b c d e : List Char} (ha : a.length = 8) (hb : b.length = 4)
    (hc : c.length = 4) (hd : d.length = 4) (he : e.length = 12) :
    undashed? (a ++ '-' :: (b ++ '-' :: (c ++ '-' :: (d ++ '-' :: e)))) =
      some (a ++ b ++ c ++ d ++ e) := by
  have hnil {cs : List Char} {n : Nat} (h : cs.length ≤ n) : cs.drop n = [] :=
    List.drop_eq_nil_of_le h
  have hall {cs : List Char} {n : Nat} (h : cs.length ≤ n) : cs.take n = cs :=
    List.take_of_length_le h
  simp (disch := omega) [undashed?, List.take_append, List.drop_append, ha, hb, hc, hd, he, hnil,
    hall]

/-- A hyphenated text is no other form: it has 36 characters, and a dash where `urn:uuid:` ends. -/
theorem read?_of_groups {a b c d e : List Char} (ha : a.length = 8) (hb : b.length = 4)
    (hc : c.length = 4) (hd : d.length = 4) (he : e.length = 12) {s : String}
    (hs : s.toList = a ++ '-' :: (b ++ '-' :: (c ++ '-' :: (d ++ '-' :: e)))) :
    read? s = (hexBytes? (a ++ b ++ c ++ d ++ e)).bind ofBytes? := by
  have hlength : s.toList.length = 36 := by
    simp [hs, ha, hb, hc, hd, he]
  have hurn : ¬ (s.toList.take 9).map Char.toLower = "urn:uuid:".toList := by
    intro h
    have hlast := congrArg List.getLast? h
    rw [hs, show 9 = a.length + 1 by omega, List.take_length_add_append] at hlast
    simp at hlast
  have hdigits := undashed?_groups ha hb hc hd he
  rw [← hs] at hdigits
  simp only [read?, hlength, hurn, hdigits]
  rfl

/-- **A written identifier is read back.** -/
theorem read?_text (u : Uuid) : read? u.text = some u := by
  have hgroup (i n : Nat) (h : i + n ≤ 16) :
      (((u.bytes.drop i).take n).flatMap byteText).length = 2 * n := by
    rw [length_flatMap_byteText, List.length_take, List.length_drop, u.length_bytes]
    omega
  have hbytes : u.bytes.take 4 ++ (u.bytes.drop 4).take 2 ++ (u.bytes.drop 6).take 2 ++
      (u.bytes.drop 8).take 2 ++ (u.bytes.drop 10).take 6 = u.bytes := by
    rw [← List.take_add, ← List.take_add, ← List.take_add, ← List.take_add]
    exact List.take_of_length_le (Nat.le_of_eq u.length_bytes)
  rw [read?_of_groups (hgroup 0 4 (by decide)) (hgroup 4 2 (by decide)) (hgroup 6 2 (by decide))
    (hgroup 8 2 (by decide)) (hgroup 10 6 (by decide)) (by simp [text])]
  rw [List.drop_zero, ← List.flatMap_append, ← List.flatMap_append, ← List.flatMap_append,
    ← List.flatMap_append, hbytes, hexBytes?_flatMap]
  exact u.ofBytes?_bytes

end PortableQuery.Uuid
