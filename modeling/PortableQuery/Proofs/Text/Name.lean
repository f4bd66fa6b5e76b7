import PortableQuery.Proofs.Statement.Token
import PortableQuery.Proofs.Text.Ascii
import PortableQuery.Text.Name

set_option autoImplicit false

/-!
# Plain names

A name that stands without quotes is made of ASCII letters, digits and underscores, so a lexer takes
it for one word, and its case is what the ASCII case maps see.
-/

namespace PortableQuery.Text

open Lexer

theorem isAlpha_iff {c : Char} : c.isAlpha = true ↔
    65 ≤ c.toNat ∧ c.toNat ≤ 90 ∨ 97 ≤ c.toNat ∧ c.toNat ≤ 122 := by
  have halpha : c.isAlpha = (c.isUpper || c.isLower) := rfl
  rw [halpha, Bool.or_eq_true, isUpper_iff, isLower_iff]

theorem isAlpha_of_isLower {c : Char} (h : c.isLower = true) : c.isAlpha = true :=
  isAlpha_iff.mpr (.inr (isLower_iff.mp h))

theorem toLower_eq_self {c : Char} (h : c.isUpper = false) : c.toLower = c :=
  dif_neg (of_decide_eq_false h)

theorem upperChar_of_lt {c : Char} (h : c.toNat < 128) : upperChar c = [c.toUpper] := by
  unfold upperChar
  split <;> first | omega | rfl

theorem toList_upper {s : String} (h : ∀ c ∈ s.toList, c.toNat < 128) :
    (upper s).toList = s.toList.map Char.toUpper := by
  rw [upper, String.toList_ofList]
  generalize s.toList = cs at h
  induction cs with
  | nil => rfl
  | cons c cs ih =>
    rw [List.flatMap_cons, upperChar_of_lt (h c (by simp)),
      ih fun x hx => h x (List.mem_cons_of_mem c hx), List.map_cons, List.singleton_append]

/-! ## Names in any case -/

theorem lt_of_isWordChar {c : Char} (h : isWordChar c = true) : c.toNat < 128 := by
  simp only [isWordChar, Char.isAlphanum, Bool.or_eq_true, beq_iff_eq] at h
  rcases h with (h | h) | rfl
  · have := isAlpha_iff.mp h
    omega
  · have := isDigit_iff.mp h
    omega
  · decide

theorem exists_cons_of_isPlainWord {name : String} (h : isPlainWord name = true) :
    ∃ c cs, name.toList = c :: cs ∧ c.isAlpha = true ∧ ∀ x ∈ cs, isWordChar x = true := by
  unfold isPlainWord at h
  split at h
  · next c cs hcs =>
    obtain ⟨hc, hall⟩ := Bool.and_eq_true_iff.mp h
    exact ⟨c, cs, hcs, hc, List.all_eq_true.mp hall⟩
  · cases h

theorem isWordChar_of_isPlainWord {name : String} (h : isPlainWord name = true) :
    ∀ c ∈ name.toList, isWordChar c = true := by
  obtain ⟨c, cs, hcs, hc, hall⟩ := exists_cons_of_isPlainWord h
  rw [hcs, List.forall_mem_cons]
  exact ⟨by simp [isWordChar, Char.isAlphanum, hc], hall⟩

theorem wordToken?_of_isAlpha {c : Char} {cs : List Char} (h : c.isAlpha = true) :
    wordToken? (c :: cs) = some (.word (String.ofList (c :: cs))) := by
  have hc := isAlpha_iff.mp h
  rw [wordToken?, if_neg, if_neg]
  · intro hd
    have := isDigit_iff.mp hd
    omega
  · rintro (rfl | rfl) <;> exact absurd h (by decide)

theorem spells_of_isPlainWord {quotes : List Quote} {name : String} (h : isPlainWord name = true) :
    Spells quotes name [.word name] := by
  refine spells_word (fun c hc => ?_) ?_
  · have hword := isWordChar_of_isPlainWord h c hc
    simp only [isWordChar, Bool.or_eq_true, beq_iff_eq] at hword
    simp [Lexer.isWordChar, hword]
  · obtain ⟨c, cs, hcs, hc, -⟩ := exists_cons_of_isPlainWord h
    rw [hcs, wordToken?_of_isAlpha hc, ← hcs, String.ofList_toList]

theorem toList_upper_of_isPlainWord {name : String} (h : isPlainWord name = true) :
    (upper name).toList = name.toList.map Char.toUpper :=
  toList_upper fun c hc => lt_of_isWordChar (isWordChar_of_isPlainWord h c hc)

/-! ## Names in small letters -/

theorem isWordChar_of_isSnakeChar {c : Char} (h : isSnakeChar c = true) : isWordChar c = true := by
  simp only [isSnakeChar, Bool.or_eq_true, beq_iff_eq] at h
  rcases h with (h | h) | rfl
  · simp [isWordChar, Char.isAlphanum, isAlpha_of_isLower h]
  · simp [isWordChar, Char.isAlphanum, h]
  · rfl

theorem isUpper_of_isSnakeChar {c : Char} (h : isSnakeChar c = true) : c.isUpper = false := by
  rw [← Bool.not_eq_true, isUpper_iff]
  simp only [isSnakeChar, Bool.or_eq_true, beq_iff_eq] at h
  rcases h with (h | h) | rfl
  · have := isLower_iff.mp h
    omega
  · have := isDigit_iff.mp h
    omega
  · decide

theorem exists_cons_of_isLowerSnake {name : String} (h : isLowerSnake name = true) :
    ∃ c cs, name.toList = c :: cs ∧ c.isLower = true ∧ ∀ x ∈ cs, isSnakeChar x = true := by
  unfold isLowerSnake at h
  split at h
  · next c cs hcs =>
    obtain ⟨hc, hall⟩ := Bool.and_eq_true_iff.mp h
    exact ⟨c, cs, hcs, hc, List.all_eq_true.mp hall⟩
  · cases h

theorem isSnakeChar_of_isLowerSnake {name : String} (h : isLowerSnake name = true) :
    ∀ c ∈ name.toList, isSnakeChar c = true := by
  obtain ⟨c, cs, hcs, hc, hall⟩ := exists_cons_of_isLowerSnake h
  rw [hcs, List.forall_mem_cons]
  exact ⟨by simp [isSnakeChar, hc], hall⟩

theorem isPlainWord_of_isLowerSnake {name : String} (h : isLowerSnake name = true) :
    isPlainWord name = true := by
  obtain ⟨c, cs, hcs, hc, hall⟩ := exists_cons_of_isLowerSnake h
  simp only [isPlainWord, hcs, Bool.and_eq_true, List.all_eq_true]
  exact ⟨isAlpha_of_isLower hc, fun x hx => isWordChar_of_isSnakeChar (hall x hx)⟩

theorem map_toLower_of_isLowerSnake {name : String} (h : isLowerSnake name = true) :
    name.toList.map Char.toLower = name.toList := by
  conv => rhs; rw [← List.map_id name.toList]
  refine List.map_congr_left fun c hc => toLower_eq_self ?_
  exact isUpper_of_isSnakeChar (isSnakeChar_of_isLowerSnake h c hc)

theorem spells_of_isLowerSnake {quotes : List Quote} {name : String}
    (h : isLowerSnake name = true) : Spells quotes name [.word name] :=
  spells_of_isPlainWord (isPlainWord_of_isLowerSnake h)

theorem toList_upper_of_isLowerSnake {name : String} (h : isLowerSnake name = true) :
    (upper name).toList = name.toList.map Char.toUpper :=
  toList_upper_of_isPlainWord (isPlainWord_of_isLowerSnake h)

end PortableQuery.Text
