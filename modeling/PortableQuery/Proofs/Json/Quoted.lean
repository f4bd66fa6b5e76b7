import Mathlib.Tactic.IntervalCases
import PortableQuery.Json.Printer
import PortableQuery.Json.Reader

set_option autoImplicit false

/-!
# Printed strings are read back

The printer escapes what may not stand in a string, and the reader undoes it, whatever follows the
closing quote.
-/

namespace PortableQuery.JsonText

open JsonReader

theorem escaped_cases (c : Char) :
    (c ≠ '"' ∧ c ≠ '\\' ∧ 32 ≤ c.toNat ∧ escaped c = [c]) ∨
      (∃ x, (∀ rest, escape? (x :: rest) = some (.char c, rest)) ∧ escaped c = ['\\', x]) ∨
      (c.toNat < 32 ∧ escaped c =
        ['\\', 'u', '0', '0', Nat.digitChar (c.toNat / 16), Nat.digitChar (c.toNat % 16)]) := by
  have hofNat {n : Nat} (h : c.toNat = n) : Char.ofNat n = c := by rw [← h, Char.ofNat_toNat]
  unfold escaped
  split
  · exact .inr (.inl ⟨'"', fun _ => rfl, rfl⟩)
  · exact .inr (.inl ⟨'\\', fun _ => rfl, rfl⟩)
  · exact .inr (.inl ⟨'n', fun _ => rfl, rfl⟩)
  · exact .inr (.inl ⟨'r', fun _ => rfl, rfl⟩)
  · exact .inr (.inl ⟨'t', fun _ => rfl, rfl⟩)
  · next hquote hslash _ _ _ =>
    split
    · next h => exact .inr (.inl ⟨'b', fun rest => by rw [escape?, hofNat h], rfl⟩)
    · split
      · next h => exact .inr (.inl ⟨'f', fun rest => by rw [escape?, hofNat h], rfl⟩)
      · split
        · next h => exact .inr (.inr ⟨h, rfl⟩)
        · next h => exact .inl ⟨hquote, hslash, Nat.le_of_not_lt h, rfl⟩

theorem hexValue?_digitChar {d : Nat} (h : d < 16) : Digits.hexValue? d.digitChar = some d := by
  interval_cases d <;> rfl

theorem escape?_control {c : Char} (h : c.toNat < 32) (rest : List Char) :
    escape? ('u' :: '0' :: '0' :: Nat.digitChar (c.toNat / 16) :: Nat.digitChar (c.toNat % 16) ::
      rest) = some (.unit c.toNat, rest) := by
  have hzero : Digits.hexValue? '0' = some 0 := rfl
  rw [escape?, unit?, hzero, hexValue?_digitChar (by omega), hexValue?_digitChar (by omega)]
  simp only [Option.bind_eq_bind, Option.bind_some, Option.pure_def, Option.some.injEq,
    Prod.mk.injEq, Piece.unit.injEq, and_true]
  omega

theorem decode?_control {c : Char} (h : c.toNat < 32) {ps : List Piece} {cs : List Char}
    (hps : decode? ps = some cs) : decode? (.unit c.toNat :: ps) = some (c :: cs) := by
  have hhigh : isHighSurrogate c.toNat = false := by simp [isHighSurrogate]; omega
  have hlow : isLowSurrogate c.toNat = false := by simp [isLowSurrogate]; omega
  rw [decode?.eq_def]
  simp [hhigh, hlow, hps, Char.ofNat_toNat]

/-- What is printed for a character is read as one piece, which stands for that character. -/
theorem exists_piece (c : Char) : ∃ p : Piece,
    (∀ {fuel rest ps r}, pieces? fuel rest = some (ps, r) →
      pieces? (fuel + 1) (escaped c ++ rest) = some (p :: ps, r)) ∧
    ∀ {ps cs}, decode? ps = some cs → decode? (p :: ps) = some (c :: cs) := by
  rcases escaped_cases c with ⟨hq, hb, hc, he⟩ | ⟨x, hx, he⟩ | ⟨hc, he⟩
  · refine ⟨.char c, fun h => ?_, fun h => by rw [decode?, h]; rfl⟩
    rw [he, List.singleton_append, pieces?, if_neg hq, if_neg hb, if_neg (by omega), h]
    rfl
  · refine ⟨.char c, fun h => ?_, fun h => by rw [decode?, h]; rfl⟩
    rw [he, List.cons_append, List.singleton_append, pieces?, if_neg (by decide), if_pos rfl, hx]
    simp only [Option.bind_eq_bind, Option.bind_some, h]
    rfl
  · refine ⟨.unit c.toNat, fun h => ?_, decode?_control hc⟩
    simp only [he, List.cons_append, List.nil_append]
    rw [pieces?, if_neg (by decide), if_pos rfl, escape?_control hc]
    simp only [Option.bind_eq_bind, Option.bind_some, h]
    rfl

theorem exists_pieces (cs rest : List Char) {fuel : Nat} (hfuel : cs.length < fuel) :
    ∃ ps, pieces? fuel (cs.flatMap escaped ++ '"' :: rest) = some (ps, rest) ∧
      decode? ps = some cs := by
  induction cs generalizing fuel with
  | nil =>
    obtain ⟨fuel, rfl⟩ : ∃ n, fuel = n + 1 := ⟨fuel - 1, by simp at hfuel; omega⟩
    exact ⟨[], rfl, rfl⟩
  | cons c cs ih =>
    obtain ⟨fuel, rfl⟩ : ∃ n, fuel = n + 1 := ⟨fuel - 1, by simp at hfuel; omega⟩
    obtain ⟨ps, hps, hdecode⟩ := ih (by simpa using hfuel)
    obtain ⟨p, hread, hp⟩ := exists_piece c
    refine ⟨p :: ps, ?_, hp hdecode⟩
    rw [List.flatMap_cons, List.append_assoc]
    exact hread hps

theorem length_le_length_escaped (cs : List Char) : cs.length ≤ (cs.flatMap escaped).length := by
  induction cs with
  | nil => simp
  | cons c cs ih =>
    have hc : 1 ≤ (escaped c).length := by
      rcases escaped_cases c with ⟨_, _, _, he⟩ | ⟨x, _, he⟩ | ⟨_, he⟩ <;> simp [he]
    rw [List.flatMap_cons, List.length_append, List.length_cons]
    omega

/-- **A printed string is read back.** -/
theorem string?_quoted (s : String) (rest : List Char) :
    string? (s.toList.flatMap escaped ++ '"' :: rest) = some (some s, rest) := by
  have hfuel : s.toList.length < (s.toList.flatMap escaped ++ '"' :: rest).length + 1 := by
    have hlen := length_le_length_escaped s.toList
    rw [List.length_append]
    omega
  obtain ⟨ps, hps, hdecode⟩ := exists_pieces s.toList rest hfuel
  rw [string?, hps]
  simp only [Option.map_some, hdecode, String.ofList_toList]

end PortableQuery.JsonText
