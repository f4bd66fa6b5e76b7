set_option autoImplicit false

/-!
# Patterns

What a pattern of `LIKE` means, whatever a store writes in its place.

* **`Like.matchesInLines_iff`**: in a text without line feeds that is the same.
-/

namespace PortableQuery.Like

/-- The pattern covers the text: `%` any run of characters, `_` any one, and every other character
itself. -/
def Matches : List Char → List Char → Prop
  | [], s => s = []
  | c :: p, s =>
    if c = '%' then ∃ u v, s = u ++ v ∧ Matches p v
    else if c = '_' then ∃ x v, s = x :: v ∧ Matches p v
    else ∃ v, s = c :: v ∧ Matches p v

@[simp] theorem matches_nil (s : List Char) : Matches [] s ↔ s = [] := Iff.rfl

@[simp] theorem matches_percent (p s : List Char) :
    Matches ('%' :: p) s ↔ ∃ u v, s = u ++ v ∧ Matches p v := by
  rw [Matches, if_pos rfl]

@[simp] theorem matches_underscore (p s : List Char) :
    Matches ('_' :: p) s ↔ ∃ x v, s = x :: v ∧ Matches p v := by
  rw [Matches, if_neg (by decide), if_pos rfl]

theorem matches_literal {c : Char} (hp : c ≠ '%') (hu : c ≠ '_') (p s : List Char) :
    Matches (c :: p) s ↔ ∃ v, s = c :: v ∧ Matches p v := by
  rw [Matches, if_neg hp, if_neg hu]

/-! ## Line feeds -/

/-- The pattern covers the text, but what `%` and `_` stand for are no line feeds. -/
def MatchesInLines : List Char → List Char → Prop
  | [], s => s = []
  | c :: p, s =>
    if c = '%' then ∃ u v, s = u ++ v ∧ (∀ x ∈ u, x ≠ '\n') ∧ MatchesInLines p v
    else if c = '_' then ∃ x v, s = x :: v ∧ x ≠ '\n' ∧ MatchesInLines p v
    else ∃ v, s = c :: v ∧ MatchesInLines p v

@[simp] theorem matchesInLines_nil (s : List Char) : MatchesInLines [] s ↔ s = [] := Iff.rfl

@[simp] theorem matchesInLines_percent (p s : List Char) :
    MatchesInLines ('%' :: p) s ↔
      ∃ u v, s = u ++ v ∧ (∀ x ∈ u, x ≠ '\n') ∧ MatchesInLines p v := by
  rw [MatchesInLines, if_pos rfl]

@[simp] theorem matchesInLines_underscore (p s : List Char) :
    MatchesInLines ('_' :: p) s ↔ ∃ x v, s = x :: v ∧ x ≠ '\n' ∧ MatchesInLines p v := by
  rw [MatchesInLines, if_neg (by decide), if_pos rfl]

theorem matchesInLines_literal {c : Char} (hp : c ≠ '%') (hu : c ≠ '_') (p s : List Char) :
    MatchesInLines (c :: p) s ↔ ∃ v, s = c :: v ∧ MatchesInLines p v := by
  rw [MatchesInLines, if_neg hp, if_neg hu]

theorem MatchesInLines.matches {p s : List Char} (h : MatchesInLines p s) : Matches p s := by
  induction p generalizing s with
  | nil => exact h
  | cons c p ih =>
    by_cases hpercent : c = '%'
    · subst hpercent
      obtain ⟨u, v, rfl, -, hv⟩ := (matchesInLines_percent p s).mp h
      exact (matches_percent p _).mpr ⟨u, v, rfl, ih hv⟩
    by_cases hunderscore : c = '_'
    · subst hunderscore
      obtain ⟨x, v, rfl, -, hv⟩ := (matchesInLines_underscore p s).mp h
      exact (matches_underscore p _).mpr ⟨x, v, rfl, ih hv⟩
    · obtain ⟨v, rfl, hv⟩ := (matchesInLines_literal hpercent hunderscore p s).mp h
      exact (matches_literal hpercent hunderscore p _).mpr ⟨v, rfl, ih hv⟩

/-- **In a text without line feeds a pattern covers the same with and without them.** -/
theorem matchesInLines_iff {p s : List Char} (hs : ∀ x ∈ s, x ≠ '\n') :
    MatchesInLines p s ↔ Matches p s := by
  refine ⟨MatchesInLines.matches, fun h => ?_⟩
  induction p generalizing s with
  | nil => exact h
  | cons c p ih =>
    by_cases hpercent : c = '%'
    · subst hpercent
      obtain ⟨u, v, rfl, hv⟩ := (matches_percent p s).mp h
      obtain ⟨hu, hvs⟩ := List.forall_mem_append.mp hs
      exact (matchesInLines_percent p _).mpr ⟨u, v, rfl, hu, ih hvs hv⟩
    by_cases hunderscore : c = '_'
    · subst hunderscore
      obtain ⟨x, v, rfl, hv⟩ := (matches_underscore p s).mp h
      obtain ⟨hx, hvs⟩ := List.forall_mem_cons.mp hs
      exact (matchesInLines_underscore p _).mpr ⟨x, v, rfl, hx, ih hvs hv⟩
    · obtain ⟨v, rfl, hv⟩ := (matches_literal hpercent hunderscore p s).mp h
      exact (matchesInLines_literal hpercent hunderscore p _).mpr
        ⟨v, rfl, ih (List.forall_mem_cons.mp hs).2 hv⟩

end PortableQuery.Like
