import PortableQuery.Document.Find
import PortableQuery.Proofs.Search.Wildcard

set_option autoImplicit false

/-!
# Regular expressions of patterns

A regular expression is read as a row of anchors and atoms, an atom being one character or, with a
star behind it, any number of them. Without options the dot leaves out the line feed, and the last
anchor lets one line feed pass at the end.
-/

namespace PortableQuery.Document

namespace Regex

/-! ## Syntax -/

/-- What is compared with one character of a text. -/
inductive Atom where
  /-- The dot, for any character but a line feed. -/
  | any
  | literal (c : Char)
deriving DecidableEq, Repr

/-- A sign or an escaped character of a regular expression. -/
inductive Symbol where
  | atom (a : Atom)
  /-- The star, which repeats the atom before it. -/
  | star
  | start
  | stop
deriving DecidableEq, Repr

/-- A part of a regular expression. -/
inductive Piece where
  /-- The anchor of the start. -/
  | start
  /-- The anchor of the end. -/
  | stop
  | one (a : Atom)
  /-- Any number of characters, also none. -/
  | run (a : Atom)
deriving DecidableEq, Repr

/-- A character that is literal behind a backslash: a visible one of ASCII, but no letter or digit,
which would mean a class or a boundary there. -/
def isPunctuation (c : Char) : Bool := 33 ≤ c.toNat && c.toNat ≤ 126 && !c.isAlphanum

/-- The signs of groups, choices, classes and counts, and the backslash, are not read by
themselves. -/
def otherSigns : List Char := ['+', '?', '(', ')', '|', '[', ']', '\x7b', '\x7d', '\\']

/-- The symbol of a character that stands by itself. -/
def symbol? (c : Char) : Option Symbol :=
  if c = '.' then some (.atom .any)
  else if c = '*' then some .star
  else if c = '^' then some .start
  else if c = '$' then some .stop
  else if c ∈ otherSigns then none
  else some (.atom (.literal c))

/-- The symbols of a regular expression. -/
def symbols? : List Char → Option (List Symbol)
  | [] => some []
  | '\\' :: c :: cs => if isPunctuation c then (symbols? cs).map (.atom (.literal c) :: ·) else none
  | c :: cs => do
    let s ← symbol? c
    let ss ← symbols? cs
    pure (s :: ss)

/-- The pieces of a row of symbols; a star that repeats nothing is refused. -/
def pieces? : List Symbol → Option (List Piece)
  | [] => some []
  | .atom a :: .star :: ss => (pieces? ss).map (.run a :: ·)
  | .atom a :: ss => (pieces? ss).map (.one a :: ·)
  | .start :: ss => (pieces? ss).map (.start :: ·)
  | .stop :: ss => (pieces? ss).map (.stop :: ·)
  | .star :: _ => none

/-- The pieces of a regular expression. -/
def parse? (regex : String) : Option (List Piece) := (symbols? regex.toList).bind pieces?

/-! ## Search -/

/-- The atom stands for the character. -/
def Atom.Matches : Atom → Char → Prop
  | any, x => x ≠ '\n'
  | literal c, x => x = c

/-- The pieces match from a place in a text on, which divides it into what is before and what
follows. -/
def Matches : List Piece → (before following : List Char) → Prop
  | [], _, _ => True
  | .start :: ps, xs, ys => xs = [] ∧ Matches ps xs ys
  | .stop :: ps, xs, ys => (ys = [] ∨ ys = ['\n']) ∧ Matches ps xs ys
  | .one a :: ps, xs, ys => ∃ x v, ys = x :: v ∧ a.Matches x ∧ Matches ps (xs ++ [x]) v
  | .run a :: ps, xs, ys =>
    ∃ u v, ys = u ++ v ∧ (∀ x ∈ u, a.Matches x) ∧ Matches ps (xs ++ u) v

/-- A search for the regular expression in the text finds a match, wherever it starts. -/
def Finds (regex text : String) : Prop :=
  ∃ ps, parse? regex = some ps ∧ ∃ xs ys, text.toList = xs ++ ys ∧ Matches ps xs ys

/-! ## Regular expressions of patterns -/

/-- The symbols of one character of a pattern. -/
def likeSymbols (c : Char) : List Symbol :=
  if c = '%' then [.atom .any, .star] else if c = '_' then [.atom .any] else [.atom (.literal c)]

/-- The piece of one character of a pattern. -/
def likePiece (c : Char) : Piece :=
  if c = '%' then .run .any else if c = '_' then .one .any else .one (.literal c)

theorem symbols?_cons {c : Char} {s : Symbol} (h : symbol? c = some s) (hc : c ≠ '\\')
    (cs : List Char) : symbols? (c :: cs) = (symbols? cs).map (s :: ·) := by
  rw [symbols?, h]
  · cases symbols? cs <;> rfl
  · exact fun _ _ hb _ => hc hb

theorem isPunctuation_of_mem {c : Char} (h : c ∈ metaCharacters) : isPunctuation c = true := by
  have hall : metaCharacters.all isPunctuation = true := by decide
  exact List.all_eq_true.mp hall c h

theorem symbol?_of_notMem {c : Char} (h : c ∉ metaCharacters) :
    symbol? c = some (.atom (.literal c)) := by
  have hsigns : ∀ x ∈ '.' :: '*' :: '^' :: '$' :: otherSigns, c ≠ x := by
    rintro x hx rfl
    have hmeta : ('.' :: '*' :: '^' :: '$' :: otherSigns).all (· ∈ metaCharacters) = true := by
      decide
    exact h (of_decide_eq_true (List.all_eq_true.mp hmeta c hx))
  simp only [List.forall_mem_cons] at hsigns
  obtain ⟨hdot, hstar, hstart, hstop, hother⟩ := hsigns
  rw [symbol?, if_neg hdot, if_neg hstar, if_neg hstart, if_neg hstop, if_neg]
  exact fun hc => hother c hc rfl

theorem symbols?_likeAtom (c : Char) (cs : List Char) :
    symbols? (likeAtom c ++ cs) = (symbols? cs).map (likeSymbols c ++ ·) := by
  unfold likeAtom likeSymbols literalAtom
  split
  · rw [List.cons_append, List.singleton_append, symbols?_cons rfl (by decide),
      symbols?_cons rfl (by decide), Option.map_map]
    rfl
  · split
    · exact symbols?_cons rfl (by decide) cs
    · split
      · next hmeta =>
        rw [List.cons_append, List.singleton_append, symbols?, if_pos (isPunctuation_of_mem hmeta)]
        rfl
      · next hmeta =>
        refine symbols?_cons (symbol?_of_notMem hmeta) ?_ cs
        rintro rfl
        exact hmeta (by decide)

theorem symbols?_regexChars (p : List Char) :
    symbols? (regexChars p) = some (.start :: (p.flatMap likeSymbols ++ [.stop])) := by
  have hatoms : symbols? (p.flatMap likeAtom ++ ['$']) =
      some (p.flatMap likeSymbols ++ [.stop]) := by
    induction p with
    | nil => rfl
    | cons c p ih =>
      rw [List.flatMap_cons, List.append_assoc, symbols?_likeAtom, ih, List.flatMap_cons,
        List.append_assoc]
      rfl
  rw [regexChars, symbols?_cons rfl (by decide), hatoms]
  rfl

theorem pieces?_atom (a : Atom) {ss : List Symbol} (h : ss.head? ≠ some .star) :
    pieces? (.atom a :: ss) = (pieces? ss).map (.one a :: ·) := by
  cases ss with
  | nil => rfl
  | cons s ss =>
    rw [pieces?]
    rintro rest ⟨⟩
    exact h rfl

theorem head?_flatMap_likeSymbols_ne (p : List Char) :
    (p.flatMap likeSymbols ++ [Symbol.stop]).head? ≠ some .star := by
  cases p with
  | nil => decide
  | cons c p =>
    rw [List.flatMap_cons, List.append_assoc, likeSymbols]
    split
    · simp
    · split <;> simp

/-- **The regular expression of a pattern is a piece for each character, between anchors.** -/
theorem parse?_regexOfLike (p : String) :
    parse? (regexOfLike p) = some (.start :: (p.toList.map likePiece ++ [.stop])) := by
  have hpieces (p : List Char) :
      pieces? (p.flatMap likeSymbols ++ [.stop]) = some (p.map likePiece ++ [.stop]) := by
    induction p with
    | nil => rfl
    | cons c p ih =>
      have hstar := head?_flatMap_likeSymbols_ne p
      rw [List.flatMap_cons, List.append_assoc, List.map_cons, likeSymbols, likePiece]
      split
      · rw [List.cons_append, List.singleton_append, pieces?, ih]
        rfl
      · split
        · rw [List.singleton_append, pieces?_atom _ hstar, ih]
          rfl
        · rw [List.singleton_append, pieces?_atom _ hstar, ih]
          rfl
  rw [parse?, regexOfLike, String.toList_ofList, symbols?_regexChars, Option.bind_some, pieces?,
    hpieces]
  rfl

/-! ## What they find -/

/-- The text is there up to the end, or up to a line feed that ends it. -/
def Reaches (t ys : List Char) : Prop := ys = t ∨ ys = t ++ ['\n']

theorem reaches_append_iff (u : List Char) {t ys : List Char} :
    Reaches (u ++ t) ys ↔ ∃ v, ys = u ++ v ∧ Reaches t v := by
  constructor
  · rintro (rfl | rfl)
    · exact ⟨t, rfl, .inl rfl⟩
    · exact ⟨t ++ ['\n'], List.append_assoc .., .inr rfl⟩
  · rintro ⟨v, rfl, rfl | rfl⟩
    · exact .inl rfl
    · exact .inr (List.append_assoc ..).symm

theorem matches_likePieces_iff {p ys : List Char} (xs : List Char) :
    Matches (p.map likePiece ++ [.stop]) xs ys ↔ ∃ t, Reaches t ys ∧ Like.MatchesInLines p t := by
  induction p generalizing ys xs with
  | nil =>
    constructor
    · rintro ⟨hys, -⟩
      exact ⟨[], hys, rfl⟩
    · rintro ⟨_, hys, rfl⟩
      exact ⟨hys, trivial⟩
  | cons c p ih =>
    rw [List.map_cons, List.cons_append, likePiece]
    split
    · next hc =>
      subst hc
      simp only [Matches, Atom.Matches, Like.matchesInLines_percent, ih]
      constructor
      · rintro ⟨u, v, rfl, hu, t, ht, hp⟩
        exact ⟨u ++ t, (reaches_append_iff u).mpr ⟨v, rfl, ht⟩, u, t, rfl, hu, hp⟩
      · rintro ⟨_, hys, u, t, rfl, hu, hp⟩
        obtain ⟨v, rfl, ht⟩ := (reaches_append_iff u).mp hys
        exact ⟨u, v, rfl, hu, t, ht, hp⟩
    · next hpercent =>
      split
      · next hc =>
        subst hc
        simp only [Matches, Atom.Matches, Like.matchesInLines_underscore, ih]
        constructor
        · rintro ⟨x, v, rfl, hx, t, ht, hp⟩
          exact ⟨x :: t, (reaches_append_iff [x]).mpr ⟨v, rfl, ht⟩, x, t, rfl, hx, hp⟩
        · rintro ⟨_, hys, x, t, rfl, hx, hp⟩
          obtain ⟨v, rfl, ht⟩ := (reaches_append_iff [x]).mp hys
          exact ⟨x, v, rfl, hx, t, ht, hp⟩
      · next hunderscore =>
        simp only [Matches, Atom.Matches, Like.matchesInLines_literal hpercent hunderscore, ih]
        constructor
        · rintro ⟨_, v, rfl, rfl, t, ht, hp⟩
          exact ⟨_ :: t, (reaches_append_iff [_]).mpr ⟨v, rfl, ht⟩, t, rfl, hp⟩
        · rintro ⟨_, hys, t, rfl, hp⟩
          obtain ⟨v, rfl, ht⟩ := (reaches_append_iff [_]).mp hys
          exact ⟨_, v, rfl, rfl, t, ht, hp⟩

/-- **The regular expression of a pattern finds what the pattern covers line by line, also with a
line feed behind it.** -/
theorem finds_regexOfLike_iff (p s : String) :
    Finds (regexOfLike p) s ↔ ∃ t, Reaches t s.toList ∧ Like.MatchesInLines p.toList t := by
  rw [Finds, ← matches_likePieces_iff []]
  constructor
  · rintro ⟨ps, hps, xs, ys, hs, h⟩
    obtain rfl := Option.some.inj ((parse?_regexOfLike p).symm.trans hps)
    obtain ⟨rfl, h⟩ := h
    rwa [hs]
  · intro h
    exact ⟨_, parse?_regexOfLike p, [], s.toList, rfl, rfl, h⟩

end Regex

/-- **A filter on a pattern asks for its regular expression, which finds what the pattern covers
line by line, also with a line feed behind it. In a text of one line that is what the pattern
covers, and what the wildcard of a search covers.** -/
theorem regex_finds_iff (pattern : String) :
    (∀ (name path : String) (b : Binder Json),
      operators ⟨.like, name, path, .single (.string pattern)⟩ b =
        (b.bind name (.string (regexOfLike pattern))).map fun r =>
          (.single "$regex" (.string (regexOfLike pattern)), r.2)) ∧
      (∀ s : String, Regex.Finds (regexOfLike pattern) s ↔
        Like.MatchesInLines pattern.toList s.toList ∨
          ∃ t : String, s = t ++ "\n" ∧ Like.MatchesInLines pattern.toList t.toList) ∧
      ∀ s : String, (∀ x ∈ s.toList, x ≠ '\n') →
        (Regex.Finds (regexOfLike pattern) s ↔ Like.Matches pattern.toList s.toList) ∧
          (Regex.Finds (regexOfLike pattern) s ↔
            Search.Wildcard.Matches (Search.wildcardOfLike pattern).toList s.toList) := by
  have hfinds (s : String) : Regex.Finds (regexOfLike pattern) s ↔
      Like.MatchesInLines pattern.toList s.toList ∨
        ∃ t : String, s = t ++ "\n" ∧ Like.MatchesInLines pattern.toList t.toList := by
    rw [Regex.finds_regexOfLike_iff]
    constructor
    · rintro ⟨t, hs | hs, ht⟩
      · exact .inl (hs ▸ ht)
      · exact .inr ⟨String.ofList t, String.toList_inj.mp (by simpa using hs), by simpa using ht⟩
    · rintro (hs | ⟨t, rfl, ht⟩)
      · exact ⟨s.toList, .inl rfl, hs⟩
      · exact ⟨t.toList, .inr (by simp), ht⟩
  refine ⟨fun name path b => ?_, hfinds, fun s hs => ?_⟩
  · simp only [operators]
    cases b.bind name (.string (regexOfLike pattern)) <;> rfl
  · have hline : Regex.Finds (regexOfLike pattern) s ↔ Like.Matches pattern.toList s.toList := by
      rw [hfinds, ← Like.matchesInLines_iff hs, or_iff_left]
      rintro ⟨t, rfl, -⟩
      exact hs '\n' (by simp) rfl
    refine ⟨hline, ?_⟩
    rw [hline, Search.wildcardOfLike, String.toList_ofList, Search.matches_wildcardChars]

/-- A pattern with both signs finds a text of one line, where a sign of regular expressions stands
for itself. -/
theorem regex_finds_iff_oneLine :
    (∀ x ∈ "a+b".toList, x ≠ '\n') ∧ Regex.Finds (regexOfLike "_+%") "a+b" := by
  have hline : ∀ x ∈ "a+b".toList, x ≠ '\n' := by
    have hall : "a+b".toList.all (· != '\n') = true := by decide
    exact fun x hx => bne_iff_ne.mp (List.all_eq_true.mp hall x hx)
  refine ⟨hline, ((regex_finds_iff "_+%").2.2 "a+b" hline).1.mpr ?_⟩
  refine (Like.matches_underscore ['+', '%'] _).mpr ⟨'a', ['+', 'b'], rfl, ?_⟩
  refine (Like.matches_literal (by decide) (by decide) ['%'] _).mpr ⟨['b'], rfl, ?_⟩
  exact (Like.matches_percent [] _).mpr ⟨['b'], [], rfl, rfl⟩

/-- `%` covers a text of two lines, also as a wildcard, but as a regular expression it does not find
it; and the regular expression of a letter finds the letter with a line feed behind it. -/
theorem regex_misses_lines :
    (Like.Matches "%".toList "a\nb".toList ∧
        Search.Wildcard.Matches (Search.wildcardOfLike "%").toList "a\nb".toList ∧
        ¬ Regex.Finds (regexOfLike "%") "a\nb") ∧
      Regex.Finds (regexOfLike "a") "a\n" ∧ ¬ Like.Matches "a".toList "a\n".toList := by
  have hany : Like.Matches "%".toList "a\nb".toList :=
    (Like.matches_percent ..).mpr ⟨"a\nb".toList, [], by simp, rfl⟩
  refine ⟨⟨hany, ?_, fun h => ?_⟩, ?_, fun h => ?_⟩
  · rw [Search.wildcardOfLike, String.toList_ofList, Search.matches_wildcardChars]
    exact hany
  · obtain ⟨t, ht, hp⟩ := (Regex.finds_regexOfLike_iff "%" "a\nb").mp h
    obtain ⟨u, v, rfl, hu, rfl⟩ := (Like.matchesInLines_percent ..).mp hp
    rw [List.append_nil] at ht
    -- What is left of the text without a last line feed would still have the first one.
    obtain ht | ht := ht
    · exact hu '\n' (ht ▸ by decide) rfl
    · exact absurd (congrArg List.getLast? ht) (by simp)
  · exact (Regex.finds_regexOfLike_iff "a" "a\n").mpr ⟨['a'], .inr rfl,
      (Like.matchesInLines_literal (by decide) (by decide) ..).mpr ⟨[], rfl, rfl⟩⟩
  · obtain ⟨v, hv, hnil⟩ := (Like.matches_literal (by decide) (by decide) ..).mp h
    rw [(Like.matches_nil v).mp hnil] at hv
    exact absurd hv (by decide)

end PortableQuery.Document
