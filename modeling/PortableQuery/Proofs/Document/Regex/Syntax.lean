import PortableQuery.Proofs.Document.Encoding
import PortableQuery.Proofs.Document.Regex

set_option autoImplicit false

/-!
# The syntax of regular expressions

A text is read by the whole syntax, with escapes, sets, groups, alternatives and quantifiers. The
machine that does it takes one character at a time and keeps the groups that are open. No character
of a pattern changes the terms around it: the regular expression of a pattern is a single row with
one term for each character. Options of groups are refused.
-/

namespace PortableQuery.Document

namespace Regex

/-! ## Terms -/

/-- How much a repetition takes of what it could take. -/
inductive Appetite where
  | greedy
  | reluctant
  | possessive
deriving DecidableEq, Repr

/-- How often a term is repeated. -/
structure Quantifier where
  least : Nat
  /-- The largest number of times, if there is one. -/
  most : Option Nat
  appetite : Appetite := .greedy
  least_le : ∀ n ∈ most, least ≤ n := by simp
deriving DecidableEq

/-- Any number of times, also none. -/
def Quantifier.anyNumber : Quantifier := { least := 0, most := none }

/-- The quantifier in braces: a number of times, or a least and perhaps a largest one. -/
def quantifier? (content : List Char) : Option Quantifier :=
  let digits := content.takeWhile Char.isDigit
  let least := Digits.value digits
  if digits = [] then none
  else
    match content.dropWhile Char.isDigit with
    | [] => some { least, most := some least }
    | [','] => some { least, most := none }
    | ',' :: digits =>
      if h : digits.all Char.isDigit ∧ least ≤ Digits.value digits then
        some { least, most := some (Digits.value digits), least_le := by simpa using h.2 }
      else none
    | _ => none

/-- A part of a regular expression. -/
inductive Term where
  /-- The anchor of the start. -/
  | start
  /-- The anchor of the end. -/
  | stop
  | atom (a : Atom)
  /-- A letter or digit behind a backslash: a class, a boundary, a reference or a character. -/
  | escape (c : Char)
  /-- A set of characters, by what stands between its brackets. -/
  | set (content : List Char)
  | quantified (t : Term) (q : Quantifier)
  /-- A group, by its alternatives. -/
  | group (alternatives : List (List Term))

/-- Alternatives, each of them a row of terms. -/
abbrev Disjunction := List (List Term)

/-- A quantifier may follow the term: it is no anchor and has none yet. -/
def Term.isQuantifiable : Term → Bool
  | .start | .stop | .quantified .. => false
  | _ => true

/-- The term of a piece. -/
def Piece.term : Piece → Term
  | .start => .start
  | .stop => .stop
  | .one a => .atom a
  | .run a => .quantified (.atom a) .anyNumber

/-! ## The machine -/

/-- A group that is being read. -/
structure Group where
  /-- The alternatives that are complete. -/
  alternatives : Disjunction := []
  /-- The terms of the one that is not, the last first. -/
  terms : List Term := []

namespace Group

/-- The alternatives of a group that ends here. -/
def disjunction (g : Group) : Disjunction := g.alternatives ++ [g.terms.reverse]

/-- The last term gets a quantifier. -/
def quantify? (q : Quantifier) : Group → Option Group
  | ⟨as, t :: ts⟩ => if t.isQuantifiable then some ⟨as, .quantified t q :: ts⟩ else none
  | ⟨_, []⟩ => none

/-- The quantifier of the last term gets an appetite. -/
def temper? (a : Appetite) : Group → Option Group
  | ⟨as, .quantified t q :: ts⟩ =>
    if q.appetite = .greedy then some ⟨as, .quantified t { q with appetite := a } :: ts⟩ else none
  | _ => none

end Group

/-- The groups that are open. -/
structure Groups where
  /-- Those around the innermost one, from the inside out. -/
  outer : List Group := []
  inner : Group := {}

namespace Groups

/-- A term is complete. -/
def add (g : Groups) (t : Term) : Groups :=
  { g with inner := { g.inner with terms := t :: g.inner.terms } }

/-- Several terms are complete, one after the other. -/
def addAll (g : Groups) (ts : List Term) : Groups :=
  { g with inner := { g.inner with terms := ts.reverse ++ g.inner.terms } }

/-- The last term gets a quantifier. -/
def quantify? (g : Groups) (q : Quantifier) : Option Groups :=
  (g.inner.quantify? q).map ({ g with inner := · })

/-- A sign that is a quantifier, and behind a quantifier the appetite of that. -/
def temperOrQuantify? (g : Groups) (a : Appetite) (q : Quantifier) : Option Groups :=
  ((g.inner.temper? a).or (g.inner.quantify? q)).map ({ g with inner := · })

/-- An alternative ends, and another begins. -/
def choose (g : Groups) : Groups := { g with inner := { alternatives := g.inner.disjunction } }

/-- A group begins. -/
def enter (g : Groups) : Groups := { outer := g.inner :: g.outer }

/-- The innermost group ends. -/
def leave? (g : Groups) : Option Groups :=
  match g.outer with
  | [] => none
  | around :: outer => some (add ⟨outer, around⟩ (.group g.inner.disjunction))

/-- A symbol of a row: a term, or the star behind one. -/
def take? (g : Groups) : Symbol → Option Groups
  | .atom a => some (g.add (.atom a))
  | .star => g.quantify? .anyNumber
  | .start => some (g.add .start)
  | .stop => some (g.add .stop)

variable (g : Groups)

@[simp] theorem addAll_add (t : Term) (ts : List Term) :
    (g.add t).addAll ts = g.addAll (t :: ts) := by
  simp [add, addAll]

theorem take?_start : g.take? .start = some (g.add Piece.start.term) := rfl

theorem take?_stop : g.take? .stop = some (g.add Piece.stop.term) := rfl

theorem take?_atom (a : Atom) : g.take? (.atom a) = some (g.add (Piece.one a).term) := rfl

theorem take?_star (a : Atom) :
    (g.add (Piece.one a).term).take? .star = some (g.add (Piece.run a).term) := rfl

end Groups

/-- What the next character belongs to. -/
inductive Place where
  /-- A term of its own, or the one before it if it is a sign. -/
  | term
  /-- The backslash before it. -/
  | escape
  /-- A set of which `content` has been read; `escaped` says that the last of it is a backslash. -/
  | set (content : List Char) (escaped : Bool)
  /-- Braces of which `content` has been read. -/
  | count (content : List Char)

/-- Where the machine stands. -/
structure State where
  groups : Groups := {}
  place : Place := .term

/-- A character that is no symbol of rows. -/
def operate? (g : Groups) (c : Char) : Option State :=
  if c = '\\' then some ⟨g, .escape⟩
  else if c = '[' then some ⟨g, .set [] false⟩
  else if c = '\x7b' then some ⟨g, .count []⟩
  else if c = '(' then some ⟨g.enter, .term⟩
  else if c = ')' then g.leave?.map (⟨·, .term⟩)
  else if c = '|' then some ⟨g.choose, .term⟩
  else if c = '+' then
    (g.temperOrQuantify? .possessive { least := 1, most := none }).map (⟨·, .term⟩)
  else if c = '?' then
    (g.temperOrQuantify? .reluctant { least := 0, most := some 1 }).map (⟨·, .term⟩)
  -- A bracket or a brace that closes nothing stands for itself.
  else some ⟨g.add (.atom (.literal c)), .term⟩

/-- One character. -/
def step : State → Char → Option State
  | ⟨g, .term⟩, c =>
    match symbol? c with
    | some s => (g.take? s).map (⟨·, .term⟩)
    | none => operate? g c
  | ⟨g, .escape⟩, c =>
    some ⟨g.add (if c.isAlphanum then .escape c else .atom (.literal c)), .term⟩
  | ⟨g, .set content true⟩, c => some ⟨g, .set (content ++ [c]) false⟩
  | ⟨g, .set content false⟩, c =>
    -- A bracket that comes first, or first behind the sign of negation, is a member of the set.
    if c = ']' ∧ content ≠ [] ∧ content ≠ ['^'] then some ⟨g.add (.set content), .term⟩
    else some ⟨g, .set (content ++ [c]) (c == '\\')⟩
  | ⟨g, .count content⟩, c =>
    if c = '\x7d' then (quantifier? content).bind fun q => (g.quantify? q).map (⟨·, .term⟩)
    else some ⟨g, .count (content ++ [c])⟩

/-- What has been read if the text ends here. -/
def finish? : State → Option Disjunction
  | ⟨⟨[], g⟩, .term⟩ => some g.disjunction
  | _ => none

/-- The alternatives of a regular expression. -/
def read? (regex : String) : Option Disjunction :=
  (regex.toList.foldlM step ({} : State)).bind finish?

example : read? "^(a|b)+?[^]\\]]$" = some [[.start,
    .quantified (.group [[.atom (.literal 'a')], [.atom (.literal 'b')]])
      { least := 1, most := none, appetite := .reluctant },
    .set ['^', ']', '\\', ']'], .stop]] := rfl

/-! ## Rows -/

theorem foldlM_cons_of_eq {S A : Type} {f : S → A → Option S} {s s' : S} {a : A}
    (h : f s a = some s') (as : List A) : (a :: as).foldlM f s = as.foldlM f s' := by
  rw [List.foldlM_cons, h, Option.bind_eq_bind, Option.bind_some]

/-- What has no meaning of its own behind a backslash is literal there. -/
theorem foldlM_step_escape {c : Char} (h : isPunctuation c = true) (cs : List Char) (g : Groups) :
    ('\\' :: c :: cs).foldlM step ⟨g, .term⟩ =
      cs.foldlM step ⟨g.add (.atom (.literal c)), .term⟩ := by
  have hbackslash : step ⟨g, .term⟩ '\\' = some ⟨g, .escape⟩ := rfl
  have hliteral : step ⟨g, .escape⟩ c = some ⟨g.add (.atom (.literal c)), .term⟩ := by
    simp only [isPunctuation, Bool.and_eq_true, Bool.not_eq_true'] at h
    simp only [step, h.2, Bool.false_eq_true, if_false]
  rw [foldlM_cons_of_eq hbackslash, foldlM_cons_of_eq hliteral]

theorem foldlM_step_of_symbols? {cs : List Char} {ss : List Symbol} (h : symbols? cs = some ss)
    (g : Groups) :
    cs.foldlM step ⟨g, .term⟩ = (ss.foldlM Groups.take? g).map (⟨·, .term⟩) := by
  fun_induction symbols? cs generalizing ss g with
  | case1 =>
    obtain rfl := Option.some.inj h
    rfl
  | case2 c cs hc ih =>
    obtain ⟨ss, hss, rfl⟩ := Option.map_eq_some_iff.mp h
    rw [foldlM_step_escape hc, ih hss, foldlM_cons_of_eq (g.take?_atom (.literal c))]
    rfl
  | case3 => cases h
  | case4 c cs _ ih =>
    simp only [Option.bind_eq_bind, Option.bind_eq_some_iff, Option.pure_def,
      Option.some.injEq] at h
    obtain ⟨s, hs, ss, hss, rfl⟩ := h
    have hstep : step ⟨g, .term⟩ c = (g.take? s).map (⟨·, .term⟩) := by simp only [step, hs]
    rw [List.foldlM_cons, hstep, List.foldlM_cons]
    cases g.take? s with
    | none => rfl
    | some g => exact ih hss g

theorem foldlM_take?_of_pieces? {ss : List Symbol} {ps : List Piece} (h : pieces? ss = some ps)
    (g : Groups) : ss.foldlM Groups.take? g = some (g.addAll (ps.map Piece.term)) := by
  fun_induction pieces? ss generalizing ps g with
  | case1 =>
    obtain rfl := Option.some.inj h
    rfl
  | case2 a ss ih =>
    obtain ⟨ps, hps, rfl⟩ := Option.map_eq_some_iff.mp h
    rw [foldlM_cons_of_eq (g.take?_atom a), foldlM_cons_of_eq (g.take?_star a), ih hps,
      Groups.addAll_add, List.map_cons]
  | case3 a ss _ ih =>
    obtain ⟨ps, hps, rfl⟩ := Option.map_eq_some_iff.mp h
    rw [foldlM_cons_of_eq (g.take?_atom a), ih hps, Groups.addAll_add, List.map_cons]
  | case4 ss ih =>
    obtain ⟨ps, hps, rfl⟩ := Option.map_eq_some_iff.mp h
    rw [foldlM_cons_of_eq g.take?_start, ih hps, Groups.addAll_add, List.map_cons]
  | case5 ss ih =>
    obtain ⟨ps, hps, rfl⟩ := Option.map_eq_some_iff.mp h
    rw [foldlM_cons_of_eq g.take?_stop, ih hps, Groups.addAll_add, List.map_cons]
  | case6 => cases h

/-- **A row of anchors and atoms is that row in the whole syntax.** -/
theorem read?_of_parse? {regex : String} {ps : List Piece} (h : parse? regex = some ps) :
    read? regex = some [ps.map Piece.term] := by
  obtain ⟨ss, hss, hps⟩ := Option.bind_eq_some_iff.mp h
  rw [read?, foldlM_step_of_symbols? hss, foldlM_take?_of_pieces? hps]
  simp [finish?, Groups.addAll, Group.disjunction]

/-! ## Patterns -/

/-- The term of one character of a pattern. -/
def likeTerm (c : Char) : Term :=
  if c = '%' then .quantified (.atom .any) .anyNumber
  else if c = '_' then .atom .any
  else .atom (.literal c)

theorem term_likePiece (c : Char) : (likePiece c).term = likeTerm c := by
  unfold likePiece likeTerm
  split
  · rfl
  · split <;> rfl

/-- The character of a pattern that becomes the term. -/
def likeSign? : Term → Option Char
  | .atom .any => some '_'
  | .atom (.literal c) => if c = '%' ∨ c = '_' then none else some c
  | .quantified (.atom .any) q => if q = .anyNumber then some '%' else none
  | _ => none

/-- The characters of a pattern that become the terms before the last anchor. -/
def likeSigns? : List Term → Option (List Char)
  | [.stop] => some []
  | t :: ts => do
    let c ← likeSign? t
    let cs ← likeSigns? ts
    pure (c :: cs)
  | [] => none

/-- The pattern of a regular expression. -/
def pattern? : Disjunction → Option String
  | [.start :: ts] => (likeSigns? ts).map String.ofList
  | _ => none

theorem likeSign?_likeTerm (c : Char) : likeSign? (likeTerm c) = some c := by
  unfold likeTerm
  split
  · next hc => rw [hc]; rfl
  · next hpercent =>
    split
    · next hc => rw [hc]; rfl
    · next hunderscore => exact if_neg (not_or.mpr ⟨hpercent, hunderscore⟩)

theorem eq_likeTerm_of_likeSign? {t : Term} {c : Char} (h : likeSign? t = some c) :
    t = likeTerm c := by
  unfold likeSign? at h
  split at h
  · obtain rfl := Option.some.inj h
    rfl
  · split at h
    · cases h
    · next hc =>
      obtain rfl := Option.some.inj h
      rw [not_or] at hc
      rw [likeTerm, if_neg hc.1, if_neg hc.2]
  · split at h
    · next hq =>
      obtain rfl := Option.some.inj h
      rw [hq]
      rfl
    · cases h
  · cases h

theorem likeSign?_eq_some_iff {t : Term} {c : Char} : likeSign? t = some c ↔ t = likeTerm c :=
  ⟨eq_likeTerm_of_likeSign?, fun h => h ▸ likeSign?_likeTerm c⟩

theorem likeSigns?_eq_some_iff {ts : List Term} {cs : List Char} :
    likeSigns? ts = some cs ↔ ts = cs.map likeTerm ++ [.stop] := by
  fun_induction likeSigns? ts generalizing cs with
  | case1 => cases cs <;> simp
  | case2 t ts hstop ih =>
    simp only [Option.bind_eq_bind, Option.bind_eq_some_iff, Option.pure_def, Option.some.injEq,
      likeSign?_eq_some_iff, ih]
    constructor
    · rintro ⟨c, rfl, cs, rfl, rfl⟩
      rfl
    · intro h
      cases cs with
      | nil =>
        obtain ⟨rfl, rfl⟩ := List.cons.inj h
        exact (hstop rfl rfl).elim
      | cons c cs =>
        obtain ⟨rfl, rfl⟩ := List.cons.inj h
        exact ⟨c, rfl, cs, rfl, rfl⟩
  | case3 => simp

/-- **A regular expression has a pattern exactly if it is a single row with the term of each
character between anchors.** -/
theorem pattern?_eq_some_iff {d : Disjunction} {p : String} :
    pattern? d = some p ↔ d = [.start :: (p.toList.map likeTerm ++ [.stop])] := by
  constructor
  · intro h
    unfold pattern? at h
    split at h
    · next ts =>
      obtain ⟨cs, hcs, rfl⟩ := Option.map_eq_some_iff.mp h
      rw [likeSigns?_eq_some_iff.mp hcs, String.toList_ofList]
    · cases h
  · rintro rfl
    rw [pattern?, likeSigns?_eq_some_iff.mpr rfl, Option.map_some, String.ofList_toList]

end Regex

/-- **The regular expression of a pattern is read as an anchor, one term for each character in
order, and an anchor: `%` is any number of characters, `_` any one, and every other character
itself. So the pattern is read off it, and different patterns have different regular
expressions.** -/
theorem patterns_read_back :
    (∀ pattern : String, Regex.read? (regexOfLike pattern) =
        some [.start :: (pattern.toList.map Regex.likeTerm ++ [.stop])]) ∧
      (∀ pattern : String,
        (Regex.read? (regexOfLike pattern)).bind Regex.pattern? = some pattern) ∧
      Function.Injective regexOfLike := by
  have hread (pattern : String) : Regex.read? (regexOfLike pattern) =
      some [.start :: (pattern.toList.map Regex.likeTerm ++ [.stop])] := by
    have hterms : Regex.Piece.term ∘ Regex.likePiece = Regex.likeTerm :=
      funext Regex.term_likePiece
    rw [Regex.read?_of_parse? (Regex.parse?_regexOfLike pattern), List.map_cons, List.map_append,
      List.map_map, hterms]
    rfl
  refine ⟨hread, fun pattern => ?_, regexOfLike_injective⟩
  rw [hread, Option.bind_some, Regex.pattern?_eq_some_iff]

example : Regex.read? (regexOfLike "_*%.|") = some [[.start, .atom .any, .atom (.literal '*'),
    .quantified (.atom .any) .anyNumber, .atom (.literal '.'), .atom (.literal '|'), .stop]] := rfl

end PortableQuery.Document
