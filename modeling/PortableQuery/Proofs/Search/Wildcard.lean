import PortableQuery.Proofs.Text.Like
import PortableQuery.Search.Body

set_option autoImplicit false

/-!
# Wildcards mean their patterns

* **`matches_wildcardChars`**: the wildcard of a pattern covers what the pattern covers;
* **`wildcard_covers_iff`**: a search for a pattern is one for such a wildcard.
-/

namespace PortableQuery.Search

namespace Wildcard

/-- The wildcard covers the text: a character behind a backslash stands for itself, `*` for any run
of characters, `?` for any one, and every other character for itself. -/
def Matches : List Char → List Char → Prop
  | [], s => s = []
  | '\\' :: c :: w, s => ∃ v, s = c :: v ∧ Matches w v
  | c :: w, s =>
    if c = '*' then ∃ u v, s = u ++ v ∧ Matches w v
    else if c = '?' then ∃ x v, s = x :: v ∧ Matches w v
    else ∃ v, s = c :: v ∧ Matches w v

@[simp] theorem matches_escaped (c : Char) (w s : List Char) :
    Matches ('\\' :: c :: w) s ↔ ∃ v, s = c :: v ∧ Matches w v := by
  rw [Matches]

@[simp] theorem matches_star (w s : List Char) :
    Matches ('*' :: w) s ↔ ∃ u v, s = u ++ v ∧ Matches w v := by
  rw [Matches, if_pos rfl]
  nofun

@[simp] theorem matches_question (w s : List Char) :
    Matches ('?' :: w) s ↔ ∃ x v, s = x :: v ∧ Matches w v := by
  rw [Matches, if_neg (by decide), if_pos rfl]
  nofun

theorem matches_literal {c : Char} (hb : c ≠ '\\') (hs : c ≠ '*') (hq : c ≠ '?')
    (w s : List Char) : Matches (c :: w) s ↔ ∃ v, s = c :: v ∧ Matches w v := by
  rw [Matches, if_neg hs, if_neg hq]
  exact fun _ _ hc _ => hb hc

end Wildcard

/-- **The wildcard of a pattern covers what the pattern covers.** -/
theorem matches_wildcardChars (p s : List Char) :
    Wildcard.Matches (wildcardChars p) s ↔ Like.Matches p s := by
  induction p generalizing s with
  | nil => exact Iff.rfl
  | cons c p ih =>
    have hcons : wildcardChars (c :: p) = wildcardAtom c ++ wildcardChars p := List.flatMap_cons
    rw [hcons, wildcardAtom]
    split
    · next hc =>
      subst hc
      simp only [List.singleton_append, Wildcard.matches_star, Like.matches_percent, ih]
    · next hpercent =>
      split
      · next hc =>
        subst hc
        simp only [List.singleton_append, Wildcard.matches_question, Like.matches_underscore, ih]
      · next hunderscore =>
        rw [Like.matches_literal hpercent hunderscore]
        split
        · simp only [List.cons_append, List.nil_append, Wildcard.matches_escaped, ih]
        · next hspecial =>
          simp only [not_or] at hspecial
          obtain ⟨hstar, hquestion, hbackslash⟩ := hspecial
          rw [List.singleton_append, Wildcard.matches_literal hbackslash hstar hquestion]
          simp only [ih]

/-- **A search for a pattern on a path looks there for a wildcard, which covers a text if and only if
the pattern does.** -/
theorem wildcard_covers_iff (pattern : String) :
    (∀ (name path : String) (b : Binder Json),
      lowerPredicate ⟨.like, name, path, .single (.string pattern)⟩ b =
        (b.bind name (.string (wildcardOfLike pattern))).map fun r =>
          (leaf "wildcard" path (.single "value" (.string (wildcardOfLike pattern))), r.2)) ∧
      ∀ s : String, Wildcard.Matches (wildcardOfLike pattern).toList s.toList ↔
        Like.Matches pattern.toList s.toList := by
  refine ⟨fun name path b => ?_, fun s => ?_⟩
  · simp only [lowerPredicate]
    cases b.bind name (.string (wildcardOfLike pattern)) <;> rfl
  · rw [wildcardOfLike, String.toList_ofList]
    exact matches_wildcardChars pattern.toList s.toList

/-- A backslash stands for itself, also in front of what becomes a sign. -/
example : wildcardOfLike "a\\%*_" = "a\\\\*\\*?" := by decide +kernel

end PortableQuery.Search
