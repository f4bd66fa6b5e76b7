import PortableQuery.Proofs.Text.Name

set_option autoImplicit false

/-!
# Names as tokens

The start of a text is cut off as one token: a name in quotes, or the longest row of characters that
can stand in a word, which is a keyword or a name. A language chooses the characters, the quotes and
the keywords.
-/

namespace PortableQuery

/-- The token at the start of a text where a name is due. -/
inductive NameToken where
  /-- A keyword, in capitals. -/
  | keyword (capitals : String)
  /-- A name, without its quotes if it has them. -/
  | name (s : String)
deriving DecidableEq, Repr

/-- A word in capitals. -/
def capitals (word : String) : String := String.ofList (word.toList.map Char.toUpper)

/-- What names of a language are made of. -/
structure NameRules where
  /-- The character can begin a word. -/
  begins : Char → Bool
  /-- The character can stand in a word behind the first. -/
  continues : Char → Bool
  /-- A word is a name in small letters, whatever its case. -/
  folds : Bool
  /-- The mark at both ends of a quotation. -/
  mark : Char
  /-- Inside a quotation, a backslash stands in front of a mark or a backslash; without escapes, a
  mark is doubled. -/
  escapes : Bool
  keywords : List String
  mark_ne : mark ≠ '\\' := by decide
  not_begins_mark : begins mark = false := by decide

namespace NameRules

variable (r : NameRules)

/-- The characters up to the mark that closes a quotation, and what follows it. -/
def quoted? : List Char → Option (List Char × List Char)
  | [] => none
  | [c] => if c = r.mark then some ([], []) else none
  | c :: x :: cs =>
    -- a mark or a backslash says what it means only together with the character behind it
    if r.escapes ∧ c = '\\' then
      if x = '\\' ∨ x = r.mark then (quoted? cs).map fun q => (x :: q.1, q.2) else none
    else if c = r.mark then
      if ¬ r.escapes ∧ x = r.mark then (quoted? cs).map fun q => (x :: q.1, q.2)
      else some ([], x :: cs)
    else (quoted? (x :: cs)).map fun q => (c :: q.1, q.2)

/-- What a word is: a keyword in any case, or else a name. -/
def word (s : String) : NameToken :=
  if capitals s ∈ r.keywords then .keyword (capitals s)
  else .name (if r.folds then String.ofList (s.toList.map Char.toLower) else s)

/-- The token at the start of a text, and what follows it. -/
def token? : List Char → Option (NameToken × List Char)
  | [] => none
  | c :: cs =>
    if c = r.mark then (r.quoted? cs).map fun q => (.name (String.ofList q.1), q.2)
    else if r.begins c then
      some (r.word (String.ofList (c :: cs.takeWhile r.continues)), cs.dropWhile r.continues)
    else none

/-- The text cannot continue a name before it: it starts neither with a character of words nor with
a mark. -/
def Ends (rest : List Char) : Prop := ∀ c ∈ rest.head?, r.continues c = false ∧ c ≠ r.mark

instance (rest : List Char) : Decidable (r.Ends rest) :=
  match rest with
  | [] => isTrue (by simp [Ends])
  | c :: _ => decidable_of_iff (r.continues c = false ∧ c ≠ r.mark) (by simp [Ends])

variable {r}

/-! ## Quotations -/

variable (r) in
/-- A character inside a quotation. -/
def quotedChar (c : Char) : List Char :=
  if r.escapes then if c = '\\' ∨ c = r.mark then ['\\', c] else [c]
  else if c = r.mark then [r.mark, r.mark] else [c]

variable (r) in
/-- A name between marks. -/
def quotation (name : String) : String :=
  String.ofList (r.mark :: (name.toList.flatMap r.quotedChar ++ [r.mark]))

theorem quoted?_cons {c : Char} (hm : c ≠ r.mark) (he : r.escapes → c ≠ '\\') (cs : List Char) :
    r.quoted? (c :: cs) = (r.quoted? cs).map fun q => (c :: q.1, q.2) := by
  cases cs with
  | nil => simp only [quoted?, if_neg hm, Option.map_none]
  | cons x cs => rw [quoted?, if_neg fun h => he h.1 h.2, if_neg hm]

theorem quoted?_quotedChar (c : Char) (cs : List Char) :
    r.quoted? (r.quotedChar c ++ cs) = (r.quoted? cs).map fun q => (c :: q.1, q.2) := by
  rw [quotedChar]
  split
  · next he =>
    split
    · next hc => rw [List.cons_append, List.singleton_append, quoted?, if_pos ⟨he, rfl⟩, if_pos hc]
    · next hc =>
      rw [not_or] at hc
      exact quoted?_cons hc.2 (fun _ => hc.1) cs
  · next he =>
    split
    · next hc =>
      rw [List.cons_append, List.singleton_append, quoted?, if_neg fun h => he h.1, if_pos rfl,
        if_pos ⟨he, rfl⟩, hc]
    · next hc => exact quoted?_cons hc (fun h => absurd h he) cs

/-- The mark that closes a quotation does so if no mark follows. -/
theorem quoted?_mark {rest : List Char} (h : r.Ends rest) :
    r.quoted? (r.mark :: rest) = some ([], rest) := by
  cases rest with
  | nil => rw [quoted?, if_pos rfl]
  | cons x cs =>
    have hx : x ≠ r.mark := (h x rfl).2
    rw [quoted?, if_neg fun hm => r.mark_ne hm.2, if_pos rfl, if_neg fun hm => hx hm.2]

theorem quoted?_flatMap (cs : List Char) {rest : List Char} (h : r.Ends rest) :
    r.quoted? (cs.flatMap r.quotedChar ++ r.mark :: rest) = some (cs, rest) := by
  induction cs with
  | nil => exact quoted?_mark h
  | cons c cs ih => rw [List.flatMap_cons, List.append_assoc, quoted?_quotedChar, ih]; rfl

/-- **A name in quotes is read back, whatever it is.** -/
theorem token?_quotation (name : String) {rest : List Char} (h : r.Ends rest) :
    r.token? ((r.quotation name).toList ++ rest) = some (.name name, rest) := by
  rw [quotation, String.toList_ofList, List.cons_append, List.append_assoc, List.singleton_append,
    token?, if_pos rfl, quoted?_flatMap _ h, Option.map_some, String.ofList_toList]

/-! ## Words -/

variable (r) in
/-- The name is a row of characters that make a word, which stands for itself. -/
def IsWord (name : String) : Prop :=
  (∃ c cs, name.toList = c :: cs ∧ r.begins c = true ∧ ∀ x ∈ cs, r.continues x = true) ∧
    (r.folds → name.toList.map Char.toLower = name.toList)

theorem takeWhile_of_ends {cs rest : List Char} (hcs : ∀ x ∈ cs, r.continues x = true)
    (h : r.Ends rest) : (cs ++ rest).takeWhile r.continues = cs := by
  rw [List.takeWhile_append_of_pos hcs]
  cases rest with
  | nil => simp
  | cons x rest => simp [(h x rfl).1]

theorem dropWhile_of_ends {cs rest : List Char} (hcs : ∀ x ∈ cs, r.continues x = true)
    (h : r.Ends rest) : (cs ++ rest).dropWhile r.continues = rest := by
  rw [List.dropWhile_append_of_pos hcs]
  cases rest with
  | nil => rfl
  | cons x rest => simp [(h x rfl).1]

theorem ne_mark_of_begins {c : Char} (h : r.begins c = true) : c ≠ r.mark := by
  rintro rfl
  rw [r.not_begins_mark] at h
  cases h

/-- **A name without quotes is read as a keyword or as itself.** -/
theorem token?_of_isWord {name : String} {rest : List Char} (hname : r.IsWord name)
    (h : r.Ends rest) :
    r.token? (name.toList ++ rest) =
      some (if capitals name ∈ r.keywords then .keyword (capitals name) else .name name, rest) := by
  obtain ⟨⟨c, cs, hcs, hc, hall⟩, hfold⟩ := hname
  have hword : r.word name =
      if capitals name ∈ r.keywords then .keyword (capitals name) else .name name := by
    rw [word]
    split
    · rfl
    · split
      · next hr => rw [hfold hr, String.ofList_toList]
      · rfl
  rw [hcs, List.cons_append, token?, if_neg (ne_mark_of_begins hc), if_pos hc,
    takeWhile_of_ends hall h, dropWhile_of_ends hall h, ← hcs, String.ofList_toList, hword]

/-! ## Both ways -/

variable (r) in
/-- Some names written as words and all others in quotes. -/
def write (plain : String → Bool) (name : String) : String :=
  if plain name then name else r.quotation name

/-- **Of names that are written so, those in quotes are read back, and so are the others, unless
they are keywords.** -/
theorem token?_write {plain : String → Bool} (hplain : ∀ name, plain name = true → r.IsWord name)
    (name : String) {rest : List Char} (h : r.Ends rest) :
    r.token? ((r.write plain name).toList ++ rest) =
      some (if plain name ∧ capitals name ∈ r.keywords then .keyword (capitals name)
        else .name name, rest) := by
  rw [write]
  split
  · next hp => simp only [token?_of_isWord (hplain name hp) h, hp, true_and]
  · next hp => simp only [token?_quotation name h, hp, Bool.false_eq_true, false_and, if_false]

theorem IsWord.ne_quotation {name : String} (h : r.IsWord name) (other : String) :
    name ≠ r.quotation other := by
  obtain ⟨⟨c, cs, hcs, hc, -⟩, -⟩ := h
  rintro rfl
  rw [quotation, String.toList_ofList] at hcs
  exact ne_mark_of_begins hc (List.cons.inj hcs).1.symm

/-- **Names that are written so are different texts.** -/
theorem write_injective {plain : String → Bool}
    (hplain : ∀ name, plain name = true → r.IsWord name) : (r.write plain).Injective := by
  intro a b h
  unfold write at h
  split at h
  · next ha =>
    split at h
    · exact h
    · exact absurd h ((hplain a ha).ne_quotation b)
  · split at h
    · next hb => exact absurd h.symm ((hplain b hb).ne_quotation a)
    · have hends : r.Ends [] := by simp [Ends]
      have hread := token?_quotation a hends
      rw [h, token?_quotation b hends] at hread
      exact (NameToken.name.inj (Prod.mk.inj (Option.some.inj hread)).1).symm

end NameRules

end PortableQuery
