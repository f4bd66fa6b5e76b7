import PortableQuery.Proofs.Statement.Clause
import PortableQuery.Proofs.Statement.Meaning

set_option autoImplicit false

/-!
# Reading SQL

A `SELECT` of one table, read back into its parts. Keywords are recognised in either case, a name in
double quotes is taken as it is, an unquoted one in small letters, and a word is a name wherever a
name is expected.
-/

namespace PortableQuery.Sql

open Grammar

/-- The quotes of names. -/
def nameQuote : Lexer.Quote where
  mark := '"'
  escapes := false
  token? cs := some (.name (String.ofList cs))
  not_cuts_mark := Lexer.not_cuts_doubleQuote

/-- The quotes of the language. -/
def quotes : List Lexer.Quote := [nameQuote]

/-! ## Predicates -/

/-- A name. -/
def name? : Reader String
  | .name s :: ts => some (s, ts)
  | .word s :: ts => some (String.ofList (s.toList.map Char.toLower), ts)
  | _ => none

/-- A numbered placeholder. -/
def placeholder? : Reader Nat
  | .parameter sigil s :: ts =>
    if sigil = '$' ∧ s ≠ "" ∧ s.toList.all Char.isDigit then some (Digits.value s.toList, ts)
    else none
  | _ => none

/-- What a field is compared with, behind its name. -/
def restriction? (field : String) : Reader (Comparison (Slot Nat))
  | [] => none
  | t :: ts =>
    if t.isWord "IS" then do
      let ts ← expect? (Token.isWord "NULL") ts
      pure (⟨.equals, field, .null⟩, ts)
    else if t.isWord "IN" then do
      let ts ← expect? (· == .sign "(") ts
      let (ns, ts) ← separated? isComma placeholder? ts
      let ts ← expect? (· == .sign ")") ts
      pure (⟨.oneOf, field, .many ns⟩, ts)
    else if t.isWord "BETWEEN" then do
      let (lower, ts) ← placeholder? ts
      let ts ← expect? (Token.isWord "AND") ts
      let (upper, ts) ← placeholder? ts
      pure (⟨.between, field, .many [lower, upper]⟩, ts)
    else do
      let o ← comparison? "=" t
      let (n, ts) ← placeholder? ts
      pure (⟨o, field, .one n⟩, ts)

/-- A predicate. -/
def predicate? : Reader (Comparison (Slot Nat)) := fun ts => do
  let (field, ts) ← name? ts
  restriction? field ts

/-! ## Statements -/

/-- The parts of a statement, `V` being what stands for values. -/
structure Select (V : Type) where
  /-- No columns are all of them. -/
  columns : List String
  schema : Option String
  table : String
  condition : Option (Formula (Comparison V))
  order : List SortKey
  /-- A limit of zero is none. -/
  limit : Nat
  skip : Nat

/-- The same parts with other values. -/
def Select.map {V W : Type} (f : V → W) (s : Select V) : Select W :=
  { s with condition := s.condition.map (·.map (Comparison.map f)) }

/-- The parts that a query asks for in a schema. -/
def Select.ofQuery (schema : Option String) (q : Query) : Select Value where
  columns := q.projection
  schema := schema
  table := q.entity
  condition := q.condition.map (·.formula.collapse)
  order := q.sorts
  limit := q.limit.toNat
  skip := q.skip.toNat

/-- The columns, or the sign for all. -/
def columns? : Reader (List String) := fun ts =>
  match expect? (· == .sign "*") ts with
  | some ts => some ([], ts)
  | none => separated? isComma name? ts

/-- A table, in its schema if there is one. -/
def table? : Reader (Option String × String) := fun ts => do
  let (first, ts) ← name? ts
  match expect? (· == .sign ".") ts with
  | some ts => do
    let (second, ts) ← name? ts
    pure ((some first, second), ts)
  | none => pure ((none, first), ts)

/-- An order, behind its first keyword. -/
def order? : Reader (List SortKey) := fun ts => do
  let ts ← expect? (Token.isWord "BY") ts
  separated? isComma (sortKey? name?) ts

/-- A statement. -/
def select? : Reader (Select (Slot Nat)) := fun ts => do
  let ts ← expect? (Token.isWord "SELECT") ts
  let (columns, ts) ← columns? ts
  let ts ← expect? (Token.isWord "FROM") ts
  let ((schema, table), ts) ← table? ts
  let (condition, ts) ← clause? "WHERE" (formula? predicate?) ts
  let (order, ts) ← clause? "ORDER" order? ts
  let (limit, ts) ← clause? "LIMIT" count? ts
  let (skip, ts) ← clause? "OFFSET" count? ts
  pure (⟨columns, schema, table, condition, order.getD [], limit.getD 0, skip.getD 0⟩, ts)

/-- The statement of a text, which must end with it. -/
def parse? (text : String) : Option (Select (Slot Nat)) := do
  let ts ← Lexer.tokens? quotes text
  let (s, ts) ← select? ts
  if ts.isEmpty then some s else none

/-! ## Placeholders -/

/-- Placeholders by position, counted from one. -/
def placeholders : Placeholders Nat Value where
  style := .dollar
  write n := "$" ++ toString n
  look ps n := if n = 0 then none else (ps[n - 1]?).map (·.value)

/-- The language of filters. -/
def language : Language Nat Value where
  quotes := quotes
  atom := predicate?
  placeholders := placeholders
  null := .null
  list := .list

end PortableQuery.Sql
