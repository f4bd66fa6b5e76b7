import PortableQuery.Proofs.Statement.Grammar
import PortableQuery.Query

set_option autoImplicit false

/-!
# The parts of statements

What statements of different languages have in common beside their filters: the signs of
comparisons, sort keys, numbers of rows, and clauses that a keyword introduces and that may be left
out.
-/

namespace PortableQuery.Grammar

variable {α : Type}

/-! ## Readers -/

/-- The operator of a comparison with one value, `equals` being the sign of equality. -/
def comparison? (equals : String) (t : Token) : Option Operator :=
  if t = .sign equals then some .equals
  else if t = .sign ">" then some .greater
  else if t = .sign ">=" then some .greaterOrEqual
  else if t = .sign "<" then some .less
  else if t = .sign "<=" then some .lessOrEqual
  else if t.isWord "LIKE" then some .like
  else none

/-- The direction of an order. -/
def direction? : Reader Direction
  | [] => none
  | t :: ts =>
    if t.isWord "ASC" then some (.ascending, ts)
    else if t.isWord "DESC" then some (.descending, ts)
    else none

/-- One entry of an order. -/
def sortKey? (field : Reader String) : Reader SortKey := fun ts => do
  let (field, ts) ← field ts
  let (direction, ts) ← direction? ts
  pure (⟨field, direction⟩, ts)

/-- A number of rows. -/
def count? : Reader Nat
  | .number n :: ts => some (n, ts)
  | _ => none

/-- What stands behind a keyword, if the keyword is there. -/
def clause? (keyword : String) (r : Reader α) : Reader (Option α) := fun ts =>
  match expect? (Token.isWord keyword) ts with
  | some ts => do
    let (a, ts) ← r ts
    pure (some a, ts)
  | none => some (none, ts)

section Renders

open Lexer

variable {quotes : List Quote}

theorem renders_sortKey {field : Reader String} {text name word : String} {direction : Direction}
    (h : Renders quotes anywhere field text name)
    (hs : Spells quotes (" " ++ word) [.word word])
    (hd : ∀ ts, direction? (.word word :: ts) = some (direction, ts)) :
    Renders quotes anywhere (sortKey? field) (text ++ " " ++ word) ⟨name, direction⟩ := by
  obtain ⟨ts, hts, hread⟩ := h
  refine ⟨ts ++ [.word word], ?_, fun rest _ => ?_⟩
  · rw [String.append_assoc]
    exact hts.append hs (.inr (StartsCutting.append (a := " ") rfl word))
  · rw [List.append_assoc, sortKey?, hread.apply]
    simp only [Option.bind_eq_bind, Option.bind_some, List.singleton_append, hd, Option.pure_def]

end Renders

/-! ## Clauses -/

/-- The tokens start with one of these keywords, or there are none. -/
def Heads (keywords : List String) (ts : List Token) : Prop :=
  ∀ t ∈ ts.head?, ∃ w ∈ keywords, t = .word w

theorem Heads.nil (ws : List String) : Heads ws [] := by
  intro t ht
  cases ht

theorem Heads.append {w : String} {ws : List String} {ts us : List Token} (h : Heads [w] ts)
    (h' : Heads ws us) : Heads (w :: ws) (ts ++ us) := by
  cases ts with
  | nil => exact fun t ht => (h' t ht).imp fun _ => And.imp_left (List.mem_cons_of_mem w)
  | cons t ts =>
    intro u hu
    obtain rfl := Option.some.inj hu
    obtain ⟨w', hw', ht⟩ := h t rfl
    exact ⟨w', List.mem_cons.mpr (.inl (List.mem_singleton.mp hw')), ht⟩

theorem Heads.any_eq_false {bad : Token → Bool} {ws : List String} {ts : List Token}
    (h : Heads ws ts) (hbad : ∀ w ∈ ws, bad (.word w) = false) : ts.head?.any bad = false := by
  cases ts with
  | nil => rfl
  | cons t ts =>
    obtain ⟨w, hw, rfl⟩ := h t rfl
    exact hbad w hw

section Clause

open Lexer

variable (quotes : List Quote)

/-- The text is a clause behind a keyword, or nothing at all, and is read as `x`. -/
def WritesClause (keyword : String) (bad : Token → Bool) (r : Reader α) (text : String)
    (x : Option α) : Prop :=
  ∃ ts, Spells quotes text ts ∧ (text = "" ∨ StartsCutting text) ∧ Heads [keyword] ts ∧
    Reads (fun t => t.isWord keyword || bad t) (clause? keyword r) ts x

variable {quotes} {keyword : String} {bad : Token → Bool} {r : Reader α}

theorem writesClause_none : WritesClause quotes keyword bad r "" none := by
  refine ⟨[], closes_empty.spells, .inl rfl, .nil _, fun rest hrest => ?_⟩
  have hk : expect? (Token.isWord keyword) rest = none := by
    cases rest with
    | nil => rfl
    | cons t ts => exact expect?_eq_none (Bool.or_eq_false_iff.mp hrest).1
  rw [List.nil_append, clause?, hk]

theorem writesClause_some {keywords body : String} {us ts : List Token} {a : α}
    (hkeywords : Closes quotes keywords (.word keyword :: us)) (hcut : StartsCutting keywords)
    (hk : Token.isWord keyword (.word keyword) = true) (hbody : Spells quotes body ts)
    (h : Reads bad r (us ++ ts) a) :
    WritesClause quotes keyword bad r (keywords ++ body) (some a) := by
  refine ⟨_, hkeywords.append hbody, .inr (hcut.append body), ?_, fun rest hrest => ?_⟩
  · intro t ht
    exact ⟨keyword, by simp, (Option.some.inj ht).symm⟩
  · have hbad : rest.head?.any bad = false := by
      cases rest with
      | nil => rfl
      | cons t ts => exact (Bool.or_eq_false_iff.mp hrest).2
    rw [List.cons_append, List.cons_append, clause?, expect?_cons hk]
    simp only [h rest hbad, Option.bind_eq_bind, Option.bind_some]
    rfl

variable (quotes) in
/-- The text is what is left of a statement: its tokens start with one of the keywords, and no token
before it reaches into it. -/
structure Trails (keywords : List String) (text : String) (ts : List Token) : Prop where
  spells : Spells quotes text ts
  cuts : text = "" ∨ StartsCutting text
  heads : Heads keywords ts

theorem trails_empty (keywords : List String) : Trails quotes keywords "" [] :=
  ⟨closes_empty.spells, .inl rfl, .nil keywords⟩

/-- **In front of what is left of a statement a clause is read as what it is.** -/
theorem WritesClause.prepend {keywords : List String} {text rest : String} {x : Option α}
    {us : List Token} (h : WritesClause quotes keyword bad r text x)
    (hrest : Trails quotes keywords rest us)
    (hbad : ∀ w ∈ keywords, (Token.isWord keyword (.word w) || bad (.word w)) = false) :
    ∃ ts, Trails quotes (keyword :: keywords) (text ++ rest) ts ∧
      clause? keyword r ts = some (x, us) := by
  obtain ⟨ts, hs, hcut, hhead, hread⟩ := h
  refine ⟨ts ++ us, ⟨hs.append hrest.spells hrest.cuts, ?_, ?_⟩, ?_⟩
  · exact empty_or_startsCutting_append hcut hrest.cuts
  · exact hhead.append hrest.heads
  · exact hread us (hrest.heads.any_eq_false hbad)

end Clause

end PortableQuery.Grammar
